import Muster.Proofs.Coalition.Course

/-!
What a search for coalitions asks of its oracle. A recorder passes each question on to an oracle and
keeps the questions; so the search gets the same answers, and ends as it does without the recorder.

Main statements: `pass_forget`, `run_forget`, `outcome_recorder`.
-/

namespace Muster

/-- An oracle with the coalitions that it was asked for, in order, and the number of structures that
it valued. -/
structure Recorder (ω : Type) where
  oracle : ω
  asked : List (List Agent) := []
  rated : Nat := 0

instance {ω : Type} [CoalitionOracle ω] : CoalitionOracle (Recorder ω) where
  value r coalition :=
    let (v, oracle) := CoalitionOracle.value r.oracle coalition
    (v, { r with oracle, asked := r.asked ++ [coalition] })
  structureValue r values :=
    let (v, oracle) := CoalitionOracle.structureValue r.oracle values
    (v, { r with oracle, rated := r.rated + 1 })

namespace CoalitionSearch

variable {ω μ : Type}

/-- The search without what its oracle was asked. -/
def forget (s : CoalitionSearch (Recorder ω) μ) : CoalitionSearch ω μ where
  agents := s.agents
  config := s.config
  oracle := s.oracle.oracle
  monitor := s.monitor
  values := s.values
  tried := s.tried
  evaluated := s.evaluated
  best := s.best
  statistics := s.statistics
  ended := s.ended

section Oracle

variable [CoalitionOracle ω]

theorem valueOf_forget (s : CoalitionSearch (Recorder ω) μ) (coalition : List Agent) :
    s.forget.valueOf coalition = ((s.valueOf coalition).1, (s.valueOf coalition).2.forget) := by
  have hvalues : s.forget.values = s.values := rfl
  rw [valueOf, valueOf, hvalues]
  cases s.values[Pool.ofAgents coalition]? with
  | some v => rfl
  | none => rfl

theorem valuesOf_forget : ∀ (coalitions : List (List Agent)) (s : CoalitionSearch (Recorder ω) μ),
    s.forget.valuesOf coalitions = ((s.valuesOf coalitions).1, (s.valuesOf coalitions).2.forget)
  | [], _ => rfl
  | c :: rest, s => by
    simp only [valuesOf, valueOf_forget, valuesOf_forget rest]

theorem appraise_forget (s : CoalitionSearch (Recorder ω) μ) (x : List (List Agent)) :
    s.forget.appraise x = ((s.appraise x).1, (s.appraise x).2.forget) := by
  rw [appraise, appraise, valuesOf_forget]
  rfl

end Oracle

theorem keepBest_forget (s : CoalitionSearch (Recorder ω) μ) (x : List (List Agent)) (v : Double) :
    s.forget.keepBest x v = (s.keepBest x v).forget := by
  rw [keepBest_eq, keepBest_eq]
  rfl

variable [SearchMonitor μ]

theorem checkThreshold_forget (s : CoalitionSearch (Recorder ω) μ) (v : Double) :
    s.forget.checkThreshold v = (s.checkThreshold v).forget := by
  have hconfig : s.forget.config = s.config := rfl
  rw [checkThreshold, checkThreshold, hconfig]
  split
  · rfl
  · rfl

variable [CoalitionOracle ω]

theorem evaluate_forget (s : CoalitionSearch (Recorder ω) μ) (x : List (List Agent)) :
    s.forget.evaluate x = (s.evaluate x).forget := by
  have happraise := appraise_forget { s with evaluated := s.evaluated + 1 } x
  rw [evaluate_eq, evaluate_eq, ← checkThreshold_forget, ← keepBest_forget]
  exact congrArg (fun asked => (asked.2.keepBest x asked.1).checkThreshold asked.1) happraise

theorem consider_forget (s : CoalitionSearch (Recorder ω) μ) (x : List (List Agent)) :
    s.forget.consider x = (s.consider x).forget := by
  have htried : (s.forget.count .countCandidate).tried = (s.count .countCandidate).tried := rfl
  simp only [consider, htried]
  split
  · rfl
  · exact evaluate_forget { s.count .countCandidate with
      tried := (s.count .countCandidate).tried.insert (signature x) } x

theorem takeUp_forget (s : CoalitionSearch (Recorder ω) μ) (x : List (List Agent)) :
    s.forget.takeUp x = (s.takeUp x).forget := by
  have hmonitor : (s.forget.tell .step).monitor = (s.tell .step).monitor := rfl
  have hlimit : (s.forget.tell .step).config.maxStructures.any
      (· ≤ (s.forget.tell .step).evaluated) =
    (s.tell .step).config.maxStructures.any (· ≤ (s.tell .step).evaluated) := rfl
  simp only [takeUp, hmonitor, hlimit]
  cases SearchMonitor.command (s.tell .step).monitor with
  | terminate reason => rfl
  | proceed =>
    cases (s.tell .step).config.maxStructures.any (· ≤ (s.tell .step).evaluated) with
    | true => rfl
    | false => exact consider_forget (s.tell .step) x

theorem pass_forget (s : CoalitionSearch (Recorder ω) μ) (x : List (List Agent)) :
    s.forget.pass x = (s.pass x).forget := by
  have hended : s.forget.isEnded = s.isEnded := rfl
  rw [pass, pass, hended]
  split
  · rfl
  · exact s.takeUp_forget x

/-- Being recorded does not change a search. -/
theorem run_forget (s : CoalitionSearch (Recorder ω) μ) : s.forget.run = s.run.forget := by
  have hfold : ∀ (xs : List (List (List Agent))) (s : CoalitionSearch (Recorder ω) μ),
      xs.foldl pass s.forget = (xs.foldl pass s).forget := by
    intro xs
    induction xs with
    | nil => exact fun _ => rfl
    | cons x xs ih =>
      intro s
      rw [List.foldl_cons, List.foldl_cons, pass_forget, ih]
  rw [run_eq, run_eq]
  exact congrArg (tell · .exit) (hfold _ (s.tell .enter))

end CoalitionSearch

namespace CoalitionSolver

variable {ω μ : Type} [CoalitionOracle ω] [SearchMonitor μ]

/-- A recorded run ends as it does without the recorder. -/
theorem outcome_recorder (solver : CoalitionSolver) (agents : List Agent) (oracle : ω)
    (monitor : μ) :
    (solver.solveWith agents (Recorder.mk oracle [] 0) monitor).outcome =
      (solver.solveWith agents oracle monitor).outcome := by
  have hrun := CoalitionSearch.run_forget (solver.begin agents (Recorder.mk oracle [] 0) monitor)
  exact congrArg CoalitionSearch.outcome hrun.symm

end CoalitionSolver
end Muster
