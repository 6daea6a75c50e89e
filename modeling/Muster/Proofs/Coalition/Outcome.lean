import Muster.Coalition.Table
import Muster.Proofs.Coalition.Search

/-!
What a search for coalitions finds. A search without limits goes through all structures, or it is
ended by the first that reaches the threshold. As structures are gone through by the number of their
coalitions, that one has the fewest of those that reach the threshold; and if none does, the best
structure is worth the most that a split of the agents can be.

Main statements: `Reached.isOptimal`, `Underway.isOptimal`, `isOptimal_solve`.
-/

namespace Muster
namespace CoalitionSearch

variable {ω μ : Type}

theorem outcome_reason (s : CoalitionSearch ω μ) :
    s.outcome.reason = s.ended.getD .searchSpaceExhausted := by
  rw [outcome]

/-- The outcome is the best structure, unless that is worth nothing. -/
theorem outcome_cases (s : CoalitionSearch ω μ) :
    (s.outcome.coalitions = [] ∧ s.outcome.value = 0 ∧ ∀ b ∈ s.best, ¬0 < b.2) ∨
      ∃ x v, s.best = some (x, v) ∧ 0 < v ∧ s.outcome.coalitions = x ∧ s.outcome.value = v := by
  rw [outcome]
  rcases s.best with _ | ⟨x, v⟩
  · exact .inl ⟨rfl, rfl, by simp⟩
  · by_cases hv : (0 : Double).lt v = true
    · have hkept : (some (x, v)).filter (fun b => (0 : Double).lt b.2) = some (x, v) :=
        Option.filter_some_pos hv
      rw [hkept]
      exact .inr ⟨x, v, rfl, hv, rfl, rfl⟩
    · have hdropped : (some (x, v)).filter (fun b => (0 : Double).lt b.2) = none :=
        Option.filter_some_neg (Bool.eq_false_of_not_eq_true hv)
      rw [hdropped]
      refine .inl ⟨rfl, rfl, ?_⟩
      rintro b ⟨⟩
      exact hv

/-! ### The outcome -/

/-- The most that a split of the agents is worth. -/
structure IsMost (worth : Pool → Double) (agents : List Agent) (v : Double) : Prop where
  attained : ∃ blocks, IsSplit agents blocks ∧ (weakest worth blocks).same v = true
  le : ∀ blocks, IsSplit agents blocks → weakest worth blocks ≤ v

/-- An outcome is a split with its worth, or nothing. If some split reaches the threshold, it has
the fewest coalitions of those that do; otherwise it has the most that a split is worth, and it is
nothing if that is nothing. -/
structure IsOptimal (worth : Pool → Double) (threshold : Double) (agents : List Agent)
    (found : CoalitionOutcome) : Prop where
  split : found.coalitions = [] ∧ found.value = 0 ∨
    IsSplit agents found.coalitions ∧ found.value = weakest worth found.coalitions
  reached : (∃ blocks, IsSplit agents blocks ∧ threshold ≤ weakest worth blocks) →
    found.reason = .solutionLimitReached ∧ IsSplit agents found.coalitions ∧
      threshold ≤ weakest worth found.coalitions ∧
      ∀ blocks, IsSplit agents blocks → threshold ≤ weakest worth blocks →
        found.coalitions.length ≤ blocks.length
  exhausted : (¬∃ blocks, IsSplit agents blocks ∧ threshold ≤ weakest worth blocks) →
    found.reason = .searchSpaceExhausted ∧ IsMost worth agents found.value ∧
      (found.coalitions = [] ∧ found.value = 0 ↔ IsMost worth agents 0)

section Outcome

variable {worth : Pool → Double} {agents : List Agent} {config : CoalitionConfig}
variable {s : CoalitionSearch ω μ} {x : List (List Agent)} (hworth : IsShare worth)
include hworth

/-- A split that reaches the threshold has as many coalitions as some structure that does. -/
theorem exists_mem_structures_of_le {threshold : Double} (hthreshold : 0 < threshold)
    {blocks : List (List Agent)} (h : IsSplit agents blocks)
    (hreach : threshold ≤ weakest worth blocks) :
    ∃ y ∈ structures agents, y.length = blocks.length ∧ threshold ≤ weakest worth y := by
  have hne : blocks ≠ [] := by
    rintro rfl
    exact absurd (Double.pos_of_le hthreshold hreach) (by decide +kernel : ¬(0 : Double) < 0)
  obtain ⟨y, hy, heq⟩ := exists_mem_structures h hne
  have hrank := hworth.rank_weakest_of_unordered heq
  obtain ⟨⟨ht, -⟩, hle⟩ := Double.le_iff_and.1 hreach
  exact ⟨y, hy, length_eq_of_unordered heq,
    (ht.le_iff (hworth.isNumber_weakest y)).2 (hrank ▸ hle)⟩

/-- A structure that ends a search has the fewest coalitions of those that reach the threshold. -/
theorem Reached.isOptimal (hthreshold : 0 < config.threshold)
    {before after : List (List (List Agent))} (hseen : structures agents = before ++ x :: after)
    (h : Reached worth agents config before x s) :
    IsOptimal worth config.threshold agents s.outcome := by
  have hsplit : IsSplit agents x := isSplit_of_mem_structures (by simp [hseen])
  obtain ⟨hcoalitions, hvalue⟩ :
      s.outcome.coalitions = x ∧ s.outcome.value = weakest worth x := by
    obtain ⟨-, -, hdropped⟩ | ⟨y, v, hbest, -, hcoalitions, hvalue⟩ := s.outcome_cases
    · exact absurd (Double.pos_of_le hthreshold h.reaches)
        (hdropped (x, weakest worth x) h.best)
    · rw [h.best] at hbest
      cases hbest
      exact ⟨hcoalitions, hvalue⟩
  refine ⟨.inr ?_, fun _ => ?_, fun hnone => absurd ⟨x, hsplit, h.reaches⟩ hnone⟩
  · rw [hcoalitions, hvalue]
    exact ⟨hsplit, rfl⟩
  · rw [hcoalitions]
    refine ⟨by rw [outcome_reason, h.ended, Option.getD_some], hsplit, h.reaches,
      fun blocks hblocks hreach => ?_⟩
    obtain ⟨y, hy, hlength, hreach'⟩ :=
      exists_mem_structures_of_le hworth hthreshold hblocks hreach
    have hpairwise := pairwise_structures agents
    rw [hseen] at hy hpairwise
    rw [List.mem_append, List.mem_cons] at hy
    rw [← hlength]
    rcases hy with hy | rfl | hy
    · exact absurd hreach' (h.below y hy)
    · exact le_refl _
    · exact (List.pairwise_cons.1 (List.pairwise_append.1 hpairwise).2.1).1 y hy

theorem isMost_of_rank {v : Double} (hv : v.IsNumber) (hx : IsSplit agents x)
    (hrank : (weakest worth x).rank = v.rank)
    (hle : ∀ blocks, IsSplit agents blocks → (weakest worth blocks).rank ≤ v.rank) :
    IsMost worth agents v where
  attained := ⟨x, hx, ((hworth.isNumber_weakest x).same_iff hv).2 hrank⟩
  le blocks hblocks := ((hworth.isNumber_weakest blocks).le_iff hv).2 (hle blocks hblocks)

variable [CoalitionOracle ω] [SearchMonitor μ]

/-- A search that has gone through all structures of some agents has one that is worth the most. -/
theorem Underway.exists_best (h : Underway worth agents config (structures agents) s)
    (hne : agents ≠ []) :
    ∃ x, IsSplit agents x ∧ s.best = some (x, weakest worth x) ∧
      ∀ blocks, IsSplit agents blocks →
        (weakest worth blocks).rank ≤ (weakest worth x).rank := by
  have hstructure : ∀ {blocks}, IsSplit agents blocks →
      ∃ y ∈ structures agents, unordered y = unordered blocks := by
    refine fun hblocks => exists_mem_structures hblocks ?_
    rintro rfl
    exact hne hblocks.perm.nil_eq.symm
  have hbest := h.best
  rcases hs : s.best with _ | ⟨x, v⟩
  · rw [hs] at hbest
    have hone : IsSplit agents [agents] := ⟨by simpa using hne, by rw [List.flatten_singleton]⟩
    obtain ⟨y, hy, -⟩ := hstructure hone
    rw [show structures agents = [] from hbest] at hy
    exact absurd hy List.not_mem_nil
  · rw [hs] at hbest
    obtain ⟨hx, rfl, hle⟩ := hbest
    refine ⟨x, isSplit_of_mem_structures hx, rfl, fun blocks hblocks => ?_⟩
    obtain ⟨y, hy, heq⟩ := hstructure hblocks
    rw [← hworth.rank_weakest_of_unordered heq]
    exact hle y hy

theorem Underway.isMost (h : Underway worth agents config (structures agents) s) :
    IsMost worth agents s.outcome.value := by
  by_cases hne : agents = []
  · have hvalue : s.outcome.value = 0 := by
      obtain ⟨-, hvalue, -⟩ | ⟨x, v, hbest, -⟩ := s.outcome_cases
      · exact hvalue
      · have hmem := h.best
        rw [hbest, hne] at hmem
        exact absurd hmem.1 List.not_mem_nil
    subst hne
    have hnil : IsSplit ([] : List Agent) [] := ⟨by simp, .nil⟩
    have hrank := congrArg Double.rank (weakest_nil worth)
    rw [hvalue]
    refine isMost_of_rank hworth Double.isNumber_zero hnil hrank fun blocks hblocks => ?_
    rw [hblocks.eq_nil]
    exact hrank.le
  · obtain ⟨x, hx, hbest, hle⟩ := h.exists_best hworth hne
    obtain ⟨-, hvalue, hdropped⟩ | ⟨y, v, hbest', -, -, hvalue⟩ := s.outcome_cases
    · have hrank := Double.rank_eq_zero (hworth.weakest_nonneg x)
        (hdropped (x, weakest worth x) hbest)
      rw [← Double.rank_zero] at hrank
      rw [hvalue]
      exact isMost_of_rank hworth Double.isNumber_zero hx hrank (hrank ▸ hle)
    · rw [hbest] at hbest'
      cases hbest'
      rw [hvalue]
      exact isMost_of_rank hworth (hworth.isNumber_weakest x) hx rfl hle

theorem Underway.isOptimal (hthreshold : 0 < config.threshold)
    (h : Underway worth agents config (structures agents) s) :
    IsOptimal worth config.threshold agents s.outcome := by
  have hmost := h.isMost hworth
  refine ⟨?_, ?_, fun _ => ⟨?_, hmost, ?_⟩⟩
  · obtain ⟨hcoalitions, hvalue, -⟩ | ⟨x, v, hbest, -, hcoalitions, hvalue⟩ := s.outcome_cases
    · exact .inl ⟨hcoalitions, hvalue⟩
    · have hmem := h.best
      rw [hbest] at hmem
      rw [hcoalitions, hvalue]
      exact .inr ⟨isSplit_of_mem_structures hmem.1, hmem.2.1⟩
  · rintro ⟨blocks, hblocks, hreach⟩
    obtain ⟨y, hy, -, hreach'⟩ := exists_mem_structures_of_le hworth hthreshold hblocks hreach
    exact absurd hreach' (h.below y hy)
  · rw [outcome_reason, h.ended, Option.getD_none]
  · constructor
    · rintro ⟨-, hvalue⟩
      exact hvalue ▸ hmost
    · intro hnothing
      obtain ⟨hcoalitions, hvalue, -⟩ | ⟨x, v, -, hpos, -, hvalue⟩ := s.outcome_cases
      · exact ⟨hcoalitions, hvalue⟩
      · obtain ⟨blocks, hblocks, hsame⟩ := hmost.attained
        have hle := (Double.le_iff_and.1 (hnothing.le blocks hblocks)).2
        rw [hvalue, Double.same_iff_and] at hsame
        rw [hsame.2] at hle
        exact absurd (Double.lt_iff_and.1 hpos).2 (not_lt.2 hle)

theorem Progress.isOptimal (hthreshold : 0 < config.threshold)
    (h : Progress worth agents config (structures agents) s) :
    IsOptimal worth config.threshold agents s.outcome := by
  obtain h | ⟨before, x, after, hseen, h⟩ := h
  · exact h.isOptimal hworth hthreshold
  · exact h.isOptimal hworth hthreshold hseen

end Outcome

end CoalitionSearch

/-! ### Tables -/

namespace ValueTable

variable {t : ValueTable}

/-- What a pool is worth by its entry, or else by the fallback. -/
def worth (t : ValueTable) (pool : Pool) : Double := (t.pools.lookup pool).getD t.fallback

theorem valueOf_eq_worth (h : t.sizes = []) (coalition : List Agent) :
    t.valueOf coalition = t.worth (.ofAgents coalition) := by
  rw [valueOf, worth, h, List.getElem?_nil, Option.or_none]

/-- Being asked only lengthens the list of what was asked. -/
theorem exists_asked {later : ValueTable} (h : Asked t later) :
    ∃ asked, later = { t with asked } := by
  induction h with
  | never => exact ⟨t.asked, rfl⟩
  | again _ coalition ih =>
    obtain ⟨asked, rfl⟩ := ih
    exact ⟨.ofAgents coalition :: asked, rfl⟩

/-- A table without sizes that values structures by their weakest coalition is steady. -/
theorem isSteady (hsizes : t.sizes = []) (hfold : t.fold = .weakest) : IsSteady t.worth t where
  value later h coalition := by
    obtain ⟨asked, rfl⟩ := exists_asked h
    exact valueOf_eq_worth (t := { t with asked }) hsizes coalition
  structureValue later h values := by
    obtain ⟨asked, rfl⟩ := exists_asked h
    show (t.fold.apply values, _) = _
    rw [hfold]
    rfl

theorem isShare (hpools : ∀ e ∈ t.pools, 0 ≤ e.2 ∧ e.2 ≤ 1)
    (hfallback : 0 ≤ t.fallback ∧ t.fallback ≤ 1) : CoalitionSearch.IsShare t.worth := by
  intro coalition
  rw [worth]
  cases h : t.pools.lookup (.ofAgents coalition) with
  | none => exact hfallback
  | some v =>
    obtain ⟨before, after, hpool, -⟩ := List.lookup_eq_some_iff.1 h
    exact hpools (.ofAgents coalition, v) (by simp [hpool])

end ValueTable

/-- A solver without limits, be it new or used before, finds an optimal outcome under an oracle that
values coalitions by their pools, from nothing to one, and structures by their weakest coalition. -/
theorem isOptimal_solve {ω : Type} [CoalitionOracle ω] {worth : Pool → Double} {oracle : ω}
    (solver : CoalitionSolver) (htime : solver.config.timeLimit = none)
    (hmax : solver.config.maxStructures = none) (hthreshold : 0 < solver.config.threshold)
    (horacle : IsSteady worth oracle) (hworth : CoalitionSearch.IsShare worth) (clock : Clock)
    (agents : List Agent) :
    CoalitionSearch.IsOptimal worth solver.config.threshold agents
      (solver.solve clock agents oracle).outcome := by
  have hmonitor := CoalitionSearch.isPatient_monitor htime clock
  exact (CoalitionSearch.progress_begin solver hmax hworth horacle hmonitor agents).isOptimal
    hworth hthreshold

/-- Half a unit for a rover that is with a dock, nothing for all else. -/
def dockedRovers : ValueTable where
  pools := [(.ofPairs [(⟨"Dock"⟩, 1), (⟨"Rover"⟩, 1)], 1 / 2)]
  sizes := []
  fallback := 0
  fold := .weakest

/-- Two docks and two rovers. -/
def docksAndRovers : List Agent := (Pool.ofPairs [(⟨"Dock"⟩, 2), (⟨"Rover"⟩, 2)]).agents

/-- A solver that has been used before, under an oracle that finds everything perfect. -/
def usedSolver : CoalitionSolver :=
  (CoalitionSolver.solve { config := { threshold := 1 / 2 } } ⟨fun _ => ⟨0⟩⟩ docksAndRovers
    { dockedRovers with pools := [], fallback := 1 }).solver

theorem isOptimal_solve_docksAndRovers :
    CoalitionSearch.IsOptimal dockedRovers.worth (1 / 2) docksAndRovers
      (usedSolver.solve ⟨fun _ => ⟨0⟩⟩ docksAndRovers dockedRovers).outcome :=
  isOptimal_solve usedSolver rfl rfl (by decide +kernel : (0 : Double) < 1 / 2)
    (ValueTable.isSteady rfl rfl)
    (ValueTable.isShare (t := dockedRovers) (by decide +kernel) (by decide +kernel)) _ _

end Muster
