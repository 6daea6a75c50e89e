import Muster.Proofs.Coalition.Course

/-!
The run of a search for coalitions, under an oracle that tells coalitions by their pools and with no
limit. A search that goes on has tried each structure gone through, or one with the same pools; it
has the best of them, and none reaches the threshold. The first structure that reaches the threshold
is better than all before, and it ends the search.

Main statements: `Underway.takeUp`, `Progress.run`, `progress_begin`.
-/

namespace Muster

/-! ### Steady oracles and patient monitors -/

section Oracle

variable {ω : Type} [CoalitionOracle ω]

/-- What becomes of an oracle that is asked for the values of coalitions. -/
inductive Asked (oracle : ω) : ω → Prop
  | never : Asked oracle oracle
  | again {later : ω} (h : Asked oracle later) (coalition : List Agent) :
    Asked oracle (CoalitionOracle.value later coalition).2

/-- Whatever it has been asked, the oracle values a coalition by what its pool is worth, and a
structure by its weakest coalition. -/
structure IsSteady (worth : Pool → Double) (oracle : ω) : Prop where
  value : ∀ later, Asked oracle later → ∀ coalition,
    (CoalitionOracle.value later coalition).1 = worth (.ofAgents coalition)
  structureValue : ∀ later, Asked oracle later → ∀ values,
    CoalitionOracle.structureValue later values = ((reduce? Double.min values).getD 0, later)

variable {worth : Pool → Double} {oracle : ω}

theorem Asked.before {coalition : List Agent} {later : ω}
    (h : Asked (CoalitionOracle.value oracle coalition).2 later) : Asked oracle later := by
  induction h with
  | never => exact .again .never coalition
  | again _ c ih => exact .again ih c

theorem IsSteady.again (h : IsSteady worth oracle) (coalition : List Agent) :
    IsSteady worth (CoalitionOracle.value oracle coalition).2 where
  value later hlater := h.value later hlater.before
  structureValue later hlater := h.structureValue later hlater.before

end Oracle

namespace CoalitionSearch

variable {ω μ : Type}

section Monitor

variable [SearchMonitor μ] {monitor : μ}

/-- A monitor that lets a search go on, whatever happens. -/
def IsPatient (monitor : μ) : Prop :=
  ∀ events : List SearchEvent,
    SearchMonitor.command (events.foldl SearchMonitor.observe monitor) = .proceed

theorem IsPatient.observe (h : IsPatient monitor) (event : SearchEvent) :
    IsPatient (SearchMonitor.observe monitor event) := fun events => h (event :: events)

end Monitor

/-- Without a time limit there is nothing to stop a search. -/
theorem isPatient_monitor {config : CoalitionConfig} (h : config.timeLimit = none)
    (clock : Clock) : IsPatient (config.monitor clock) := by
  have hmonitor : config.monitor clock = .composite [] := by
    rw [CoalitionConfig.monitor, h]
    rfl
  have hobserve : ∀ event, SearchMonitor.observe (Monitor.composite []) event = .composite [] := by
    intro event
    show Monitor.observe event (.composite []) = _
    rw [Monitor.observe, List.map_nil]
  have hfold : ∀ events : List SearchEvent,
      events.foldl SearchMonitor.observe (Monitor.composite []) = .composite [] := by
    intro events
    induction events with
    | nil => rfl
    | cons event rest ih => rw [List.foldl_cons, hobserve, ih]
  intro events
  rw [hmonitor, hfold]
  show Monitor.command (.composite []) = _
  rw [Monitor.command, List.map_nil, SearchCommand.firstTerminate]

variable [CoalitionOracle ω] {worth : Pool → Double} {s : CoalitionSearch ω μ}

/-! ### Values -/

/-- The oracle is steady, and the values that are kept are the worths of their pools. -/
structure IsInformed (worth : Pool → Double) (s : CoalitionSearch ω μ) : Prop where
  oracle : IsSteady worth s.oracle
  values : ∀ pool v, s.values[pool]? = some v → v = worth pool

/-- A coalition gets the worth of its pool. -/
theorem IsInformed.valueOf (h : IsInformed worth s) (coalition : List Agent) :
    (s.valueOf coalition).1 = worth (.ofAgents coalition) ∧
      IsInformed worth (s.valueOf coalition).2 := by
  rw [CoalitionSearch.valueOf]
  cases hknown : s.values[Pool.ofAgents coalition]? with
  | some v => exact ⟨h.values _ _ hknown, h.oracle, h.values⟩
  | none =>
    have hv := h.oracle.value s.oracle .never coalition
    refine ⟨hv, h.oracle.again coalition, fun pool v hpool => ?_⟩
    rw [Std.TreeMap.getElem?_insert] at hpool
    split at hpool
    · rename_i heq
      rw [← Option.some.inj hpool, hv, Std.LawfulEqCmp.eq_of_compare heq]
    · exact h.values pool v hpool

theorem IsInformed.valuesOf : ∀ (coalitions : List (List Agent)) {s : CoalitionSearch ω μ},
    IsInformed worth s → (s.valuesOf coalitions).1 = coalitions.map (fun c => worth (.ofAgents c)) ∧
      IsInformed worth (s.valuesOf coalitions).2
  | [], _, h => ⟨rfl, h⟩
  | c :: rest, _, h => by
    obtain ⟨hfirst, hs⟩ := h.valueOf c
    obtain ⟨hrest, hs⟩ := valuesOf rest hs
    exact ⟨congrArg₂ List.cons hfirst hrest, hs⟩

/-- A structure gets the worth of its weakest coalition. -/
theorem IsInformed.appraise (h : IsInformed worth s) (x : List (List Agent)) :
    (s.appraise x).1 = weakest worth x ∧ IsInformed worth (s.appraise x).2 := by
  obtain ⟨hvalues, hs⟩ := h.valuesOf x
  have hvalue := hs.oracle.structureValue _ .never (s.valuesOf x).1
  rw [CoalitionSearch.appraise, hvalue, hvalues]
  exact ⟨rfl, hs.oracle, hs.values⟩

variable [SearchMonitor μ]

/-! ### One structure more -/

/-- The best of the structures gone through, with its worth. -/
def IsBest (worth : Pool → Double) (seen : List (List (List Agent))) :
    Option (List (List Agent) × Double) → Prop
  | none => seen = []
  | some (x, v) => x ∈ seen ∧ v = weakest worth x ∧ ∀ y ∈ seen, (weakest worth y).rank ≤ v.rank

/-- A search of some agents that has gone through `seen` and goes on. -/
structure Underway (worth : Pool → Double) (agents : List Agent) (config : CoalitionConfig)
    (seen : List (List (List Agent))) (s : CoalitionSearch ω μ) : Prop
    extends IsInformed worth s where
  agents_eq : s.agents = agents
  config_eq : s.config = config
  monitor : IsPatient s.monitor
  tried : ∀ x, s.tried.contains (signature x) = true → ∃ y ∈ seen, signature y = signature x
  best : IsBest worth seen s.best
  below : ∀ x ∈ seen, ¬config.threshold ≤ weakest worth x
  ended : s.ended = none

/-- A search that `x` has ended, the first structure after `seen` that reaches the threshold. -/
structure Reached (worth : Pool → Double) (agents : List Agent) (config : CoalitionConfig)
    (seen : List (List (List Agent))) (x : List (List Agent)) (s : CoalitionSearch ω μ) : Prop where
  below : ∀ y ∈ seen, ¬config.threshold ≤ weakest worth y
  reaches : config.threshold ≤ weakest worth x
  agents_eq : s.agents = agents
  best : s.best = some (x, weakest worth x)
  ended : s.ended = some .solutionLimitReached

variable {agents : List Agent} {config : CoalitionConfig} {seen : List (List (List Agent))}
variable {x : List (List Agent)}

theorem Underway.tell (h : Underway worth agents config seen s) (event : SearchEvent) :
    Underway worth agents config seen (s.tell event) :=
  { h with monitor := h.monitor.observe event }

theorem Underway.count (h : Underway worth agents config seen s)
    (f : SearchStatistics → SearchStatistics) :
    Underway worth agents config seen (s.count f) := { h with }

/-- A structure with the pools of one gone through is not worth more. -/
theorem Underway.skip (hworth : IsShare worth) (h : Underway worth agents config seen s)
    (hx : s.tried.contains (signature x) = true) :
    Underway worth agents config (seen ++ [x]) s := by
  obtain ⟨y, hy, hsignature⟩ := h.tried x hx
  have hrank := hworth.rank_weakest_of_signature hsignature
  refine { h with tried := fun z hz => ?_, best := ?_, below := ?_ }
  · obtain ⟨y, hy, hz⟩ := h.tried z hz
    exact ⟨y, List.mem_append_left _ hy, hz⟩
  · have hbest := h.best
    rcases hs : s.best with _ | ⟨b, v⟩
    · rw [hs] at hbest
      rw [show seen = [] from hbest] at hy
      exact absurd hy List.not_mem_nil
    · rw [hs] at hbest
      obtain ⟨hb, hv, hle⟩ := hbest
      refine ⟨List.mem_append_left _ hb, hv, List.forall_mem_append.2 ⟨hle, ?_⟩⟩
      rw [List.forall_mem_singleton, ← hrank]
      exact hle y hy
  · rw [List.forall_mem_append, List.forall_mem_singleton]
    refine ⟨h.below, fun hreach => h.below y hy ?_⟩
    rw [Double.le_iff_and] at hreach ⊢
    exact ⟨⟨hreach.1.1, hworth.isNumber_weakest y⟩, hrank ▸ hreach.2⟩

theorem IsBest.concat (hworth : IsShare worth) {best : Option (List (List Agent) × Double)}
    (h : IsBest worth seen best) (x : List (List Agent)) :
    IsBest worth (seen ++ [x]) (if best.all fun b => b.2.lt (weakest worth x) then
      some (x, weakest worth x) else best) := by
  rcases best with _ | ⟨b, v⟩
  · rw [show seen = [] from h]
    exact ⟨by simp, rfl, by simp⟩
  · obtain ⟨hb, rfl, hle⟩ := h
    have hlt := (hworth.isNumber_weakest b).lt_iff (hworth.isNumber_weakest x)
    split
    · rename_i hless
      have hrank := hlt.1 hless
      refine ⟨by simp, rfl, ?_⟩
      rw [List.forall_mem_append, List.forall_mem_singleton]
      exact ⟨fun y hy => (hle y hy).trans hrank.le, le_refl _⟩
    · rename_i hless
      refine ⟨List.mem_append_left _ hb, rfl, ?_⟩
      rw [List.forall_mem_append, List.forall_mem_singleton]
      exact ⟨hle, not_lt.1 fun hrank => hless (hlt.2 hrank)⟩

/-- What reaches the threshold is better than all structures before. -/
theorem Underway.best_lt (hworth : IsShare worth) (h : Underway worth agents config seen s)
    (hx : config.threshold ≤ weakest worth x) :
    (s.best.all fun b => b.2.lt (weakest worth x)) = true := by
  have hbest := h.best
  rcases hs : s.best with _ | ⟨b, v⟩
  · rfl
  · rw [hs] at hbest
    obtain ⟨hb, rfl, -⟩ := hbest
    exact (hworth.isNumber_weakest b).lt_of_le (h.below b hb) hx

/-- A structure is tried: the search goes on with the better one, or ends with this. -/
theorem Underway.evaluate (hworth : IsShare worth) (h : Underway worth agents config seen s)
    (x : List (List Agent)) :
    Underway worth agents config (seen ++ [x])
        ({ s with tried := s.tried.insert (signature x) }.evaluate x) ∨
      Reached worth agents config seen x
        ({ s with tried := s.tried.insert (signature x) }.evaluate x) := by
  have hs : IsInformed worth
      { s with tried := s.tried.insert (signature x), evaluated := s.evaluated + 1 } :=
    ⟨h.oracle, h.values⟩
  obtain ⟨hvalue, hinformed⟩ := hs.appraise x
  obtain ⟨oracle, values, statistics, hlearned⟩ := learns_appraise
    { s with tried := s.tried.insert (signature x), evaluated := s.evaluated + 1 } x
  rw [hlearned] at hinformed
  rw [evaluate_eq, hvalue, hlearned, keepBest_eq, checkThreshold]
  simp only [h.config_eq]
  by_cases hx : config.threshold ≤ weakest worth x
  · rw [if_pos hx]
    exact .inr ⟨h.below, hx, h.agents_eq, if_pos (h.best_lt hworth hx), rfl⟩
  · rw [if_neg hx]
    refine .inl {
      oracle := hinformed.oracle, values := hinformed.values, agents_eq := h.agents_eq,
      config_eq := rfl, monitor := h.monitor, tried := fun y hy => ?_,
      best := h.best.concat hworth x, below := ?_, ended := h.ended }
    · rw [Std.TreeSet.contains_insert, Bool.or_eq_true, Std.compare_beq_iff_eq] at hy
      rcases hy with hy | hy
      · exact ⟨x, by simp, hy⟩
      · obtain ⟨z, hz, hsignature⟩ := h.tried y hy
        exact ⟨z, List.mem_append_left _ hz, hsignature⟩
    · rw [List.forall_mem_append, List.forall_mem_singleton]
      exact ⟨h.below, hx⟩

theorem Underway.takeUp (hworth : IsShare worth) (hlimit : config.maxStructures = none)
    (h : Underway worth agents config seen s) (x : List (List Agent)) :
    Underway worth agents config (seen ++ [x]) (s.takeUp x) ∨
      Reached worth agents config seen x (s.takeUp x) := by
  have hstep := h.tell .step
  have hcommand : SearchMonitor.command (s.tell .step).monitor = .proceed := hstep.monitor []
  rw [CoalitionSearch.takeUp, hcommand]
  simp only [hstep.config_eq, hlimit, Option.any_none, Bool.false_eq_true, if_false]
  rw [consider]
  split
  · rename_i htried
    exact .inl (((hstep.count _).skip hworth htried).count _)
  · exact (hstep.count _).evaluate hworth _

/-! ### All structures -/

/-- How far a search has come: past all of `seen`, or it was ended by one of them. -/
def Progress (worth : Pool → Double) (agents : List Agent) (config : CoalitionConfig)
    (seen : List (List (List Agent))) (s : CoalitionSearch ω μ) : Prop :=
  Underway worth agents config seen s ∨
    ∃ before x after, seen = before ++ x :: after ∧ Reached worth agents config before x s

theorem Progress.agents_eq (h : Progress worth agents config seen s) : s.agents = agents := by
  obtain h | ⟨_, _, _, _, h⟩ := h
  · exact h.agents_eq
  · exact h.agents_eq

theorem Progress.tell (h : Progress worth agents config seen s) (event : SearchEvent) :
    Progress worth agents config seen (s.tell event) := by
  obtain h | ⟨before, x, after, hseen, h⟩ := h
  · exact .inl (h.tell event)
  · exact .inr ⟨before, x, after, hseen, { h with }⟩

section Limitless

variable (hworth : IsShare worth) (hlimit : config.maxStructures = none)
include hworth hlimit

theorem Progress.pass (h : Progress worth agents config seen s) (x : List (List Agent)) :
    Progress worth agents config (seen ++ [x]) (s.pass x) := by
  obtain h | ⟨before, y, after, hseen, h⟩ := h
  · have hended : s.isEnded = false := by rw [isEnded, h.ended]; rfl
    rw [CoalitionSearch.pass, if_neg (ne_true_of_eq_false hended)]
    refine (h.takeUp hworth hlimit x).imp_right fun h => ⟨seen, x, [], rfl, h⟩
  · have hended : s.isEnded = true := by rw [isEnded, h.ended]; rfl
    rw [CoalitionSearch.pass, if_pos hended, hseen]
    exact .inr ⟨before, y, after ++ [x], by simp, h⟩

/-- A search without limits goes through all structures, or is ended by one of them. -/
theorem Progress.run (h : Progress worth agents config [] s) :
    Progress worth agents config (structures agents) s.run := by
  have hrun := run_induction h (fun _ _ event h => h.tell event)
    (fun _ _ x h => h.pass hworth hlimit x)
  rw [h.agents_eq] at hrun
  exact hrun

end Limitless

/-- A solver without limits goes through all structures, or is ended by one of them. -/
theorem progress_begin (solver : CoalitionSolver) (hlimit : solver.config.maxStructures = none)
    (hworth : IsShare worth) {oracle : ω} (horacle : IsSteady worth oracle) {monitor : μ}
    (hmonitor : IsPatient monitor) (agents : List Agent) :
    Progress worth agents solver.config (structures agents)
      (solver.begin agents oracle monitor).run := by
  refine Progress.run hworth hlimit (.inl ?_)
  exact {
    oracle := horacle, values := by simp [CoalitionSolver.begin], agents_eq := rfl,
    config_eq := rfl, monitor := hmonitor, tried := by simp [CoalitionSolver.begin], best := rfl,
    below := by simp, ended := rfl }

end CoalitionSearch
end Muster
