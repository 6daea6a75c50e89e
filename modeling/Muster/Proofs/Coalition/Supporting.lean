import Muster.Proofs.Coalition.Outcome
import Muster.Proofs.Organization
import Muster.Proofs.Pool.Agents

/-!
Coalitions that each serve some resources. A split of the atoms of a pool is worth one if each of
its coalitions is supporting, and nothing otherwise. So without a time limit the search answers with
a split into as few supporting coalitions as possible, or with none if there is no such split; and
the pools of its coalitions add up to the pool that was split.

Main statements: `one_le_weakest_iff`, `isSteady`, `coalitions_decides`.
-/

namespace Muster

namespace Organization

/-- Coalitions that split the atoms of a pool and are each supporting, however long it takes to find
that out. -/
structure IsSupportingSplit (org : Organization) (pool : Pool) (rs : List Resource)
    (blocks : List (List Agent)) : Prop where
  isSplit : IsSplit pool.agents blocks
  isSupporting : ∀ c ∈ blocks, org.isSupporting (.ofAgents c) rs .zero = .ok true

end Organization

/-! ### The worth of coalitions -/

namespace SupportOracle

/-- What a pool is worth: one if it is supporting, and nothing otherwise. -/
def worth (oracle : SupportOracle) (pool : Pool) : Double :=
  match oracle.organization.isSupporting pool oracle.resources oracle.timeout with
  | .ok true => 1
  | _ => 0

variable {oracle : SupportOracle}

theorem value_eq (oracle : SupportOracle) (coalition : List Agent) :
    CoalitionOracle.value oracle coalition = (oracle.worth (.ofAgents coalition), oracle) := by
  show (match oracle.organization.isSupporting (.ofAgents coalition) oracle.resources
    oracle.timeout with | .ok true => ((1 : Double), oracle) | _ => (0, oracle)) = _
  rw [worth]
  split <;> rfl

theorem worth_cases (oracle : SupportOracle) (pool : Pool) :
    oracle.worth pool = 1 ∧
        oracle.organization.isSupporting pool oracle.resources oracle.timeout = .ok true ∨
      oracle.worth pool = 0 ∧
        oracle.organization.isSupporting pool oracle.resources oracle.timeout ≠ .ok true := by
  rw [worth]
  split
  · rename_i h
    exact .inl ⟨rfl, h⟩
  · rename_i h
    exact .inr ⟨rfl, h⟩

theorem eq_of_asked {later : SupportOracle} (h : Asked oracle later) : later = oracle := by
  induction h with
  | never => rfl
  | again _ coalition ih => rw [value_eq, ih]

/-- Being asked changes nothing. -/
theorem isSteady (oracle : SupportOracle) : IsSteady oracle.worth oracle where
  value later h coalition := by rw [eq_of_asked h, value_eq]
  structureValue _ _ _ := rfl

theorem isShare (oracle : SupportOracle) : CoalitionSearch.IsShare oracle.worth := by
  intro coalition
  rcases oracle.worth_cases (.ofAgents coalition) with ⟨h, -⟩ | ⟨h, -⟩ <;> rw [h]
  · exact (by decide +kernel : (0 : Double) ≤ 1 ∧ (1 : Double) ≤ 1)
  · exact (by decide +kernel : (0 : Double) ≤ 0 ∧ (0 : Double) ≤ 1)

/-- Coalitions are worth one together just if each is supporting. -/
theorem one_le_weakest_iff {blocks : List (List Agent)} (hne : blocks ≠ []) :
    1 ≤ CoalitionSearch.weakest oracle.worth blocks ↔ ∀ c ∈ blocks,
      oracle.organization.isSupporting (.ofAgents c) oracle.resources oracle.timeout =
        .ok true := by
  have hnumber := oracle.isShare.isNumber blocks
  have hlowest := Double.isLowest_reduce (by simpa using hne) hnumber 0
  constructor
  · intro hone c hc
    rcases oracle.worth_cases (.ofAgents c) with ⟨-, h⟩ | ⟨h, -⟩
    · exact h
    · -- then the weakest coalition is worth nothing
      have hle := hlowest.le _ (List.mem_map.2 ⟨c, hc, rfl⟩)
      have hrank := (Double.le_iff_and.1 hone).2
      have hless : ¬ Double.rank 1 ≤ Double.rank 0 := by decide +kernel
      rw [h] at hle
      exact absurd (hrank.trans hle) hless
  · intro hall
    obtain ⟨c, hc, hworth⟩ := List.mem_map.1 hlowest.mem
    rw [CoalitionSearch.weakest, ← hworth]
    rcases oracle.worth_cases (.ofAgents c) with ⟨h, -⟩ | ⟨-, h⟩
    · rw [h]
      decide +kernel
    · exact absurd (hall c hc) h

end SupportOracle

/-! ### Supporting splits -/

namespace Organization

variable {org : Organization} {pool : Pool} {rs : List Resource}

theorem isSupportingSplit_iff (hpool : pool.isNull = false) {blocks : List (List Agent)} :
    org.IsSupportingSplit pool rs blocks ↔ IsSplit pool.agents blocks ∧
      1 ≤ CoalitionSearch.weakest (SupportOracle.worth ⟨org, rs, .zero⟩) blocks := by
  have hne : IsSplit pool.agents blocks → blocks ≠ [] := by
    rintro h rfl
    exact Pool.agents_ne_nil hpool h.perm.nil_eq.symm
  constructor
  · exact fun h => ⟨h.isSplit, (SupportOracle.one_le_weakest_iff (hne h.isSplit)).2 h.isSupporting⟩
  · exact fun ⟨h, hone⟩ => ⟨h, (SupportOracle.one_le_weakest_iff (hne h)).1 hone⟩

/-- The pools of a split add up to the pool that is split. -/
theorem IsSupportingSplit.sumAll_eq {blocks : List (List Agent)}
    (h : org.IsSupportingSplit pool rs blocks) :
    Pool.sumAll (blocks.map Pool.ofAgents) = pool.normalized := by
  rw [Pool.sumAll_ofAgents, Pool.ofAgents_perm h.isSplit.perm, Pool.ofAgents_agents]

/-- The settings of a search without a time limit. -/
def limitless : CoalitionConfig := CoalitionConfig.withTimeLimit {} .zero

/-- What a search without a time limit finds. -/
def searchCoalitions (org : Organization) (pool : Pool) (rs : List Resource) : CoalitionOutcome :=
  (CoalitionSolver.solve { config := limitless } org.clock pool.agents
    (⟨org, rs, .zero⟩ : SupportOracle)).outcome

theorem threshold_limitless : limitless.threshold = 1 := by decide +kernel

theorem coalitions_eq (hprepared : org.isPrepared = true) (pool : Pool) (rs : List Resource) :
    org.coalitions pool rs .zero = .ok (acceptFrom 1 (org.searchCoalitions pool rs)) := by
  obtain ⟨m, hm⟩ := Option.isSome_iff_exists.1 hprepared
  rw [coalitions, mapping, hm, ← threshold_limitless]
  rfl

theorem isOptimal_searchCoalitions (org : Organization) (pool : Pool) (rs : List Resource) :
    CoalitionSearch.IsOptimal (SupportOracle.worth ⟨org, rs, .zero⟩) 1 pool.agents
      (org.searchCoalitions pool rs) := by
  have hshare := SupportOracle.isShare ⟨org, rs, .zero⟩
  have htime : limitless.timeLimit = none := rfl
  rw [← threshold_limitless]
  refine (CoalitionSearch.Progress.run hshare rfl (.inl ?_)).isOptimal hshare (by decide +kernel)
  exact {
    oracle := SupportOracle.isSteady ⟨org, rs, .zero⟩, values := by simp [CoalitionSolver.reset],
    agents_eq := rfl, config_eq := rfl,
    monitor := CoalitionSearch.isPatient_monitor htime org.clock,
    tried := by simp [CoalitionSolver.reset], best := rfl, below := by simp, ended := rfl }

theorem isEmpty_eq_false_iff {found : CoalitionOutcome} :
    found.isEmpty = false ↔ found.coalitions ≠ [] := List.isEmpty_eq_false_iff

theorem reason_acceptFrom (threshold : Double) (found : CoalitionOutcome) :
    (acceptFrom threshold found).reason = found.reason := by
  rw [acceptFrom]
  split <;> rfl

section Accepted

variable (hpool : pool.isNull = false)
include hpool

/-- If there is a supporting split then one is found, and it is accepted. -/
theorem acceptFrom_of_exists (h : ∃ blocks, org.IsSupportingSplit pool rs blocks) :
    acceptFrom 1 (org.searchCoalitions pool rs) = org.searchCoalitions pool rs ∧
      org.IsSupportingSplit pool rs (org.searchCoalitions pool rs).coalitions ∧
      ∀ blocks, org.IsSupportingSplit pool rs blocks →
        (org.searchCoalitions pool rs).coalitions.length ≤ blocks.length := by
  have hoptimal := org.isOptimal_searchCoalitions pool rs
  simp only [isSupportingSplit_iff hpool] at h ⊢
  obtain ⟨-, hsplit, hone, hfewest⟩ := hoptimal.reached h
  refine ⟨if_neg ?_, ⟨hsplit, hone⟩, fun blocks hblocks => hfewest blocks hblocks.1 hblocks.2⟩
  rintro ⟨hless, -⟩
  rcases hoptimal.split with ⟨hnil, -⟩ | ⟨-, hvalue⟩
  · rw [hnil] at hsplit
    exact Pool.agents_ne_nil hpool hsplit.perm.nil_eq.symm
  · rw [hvalue] at hless
    exact absurd (Double.lt_iff_and.1 hless).2 (Int.not_lt.2 (Double.le_iff_and.1 hone).2)

/-- If there is no supporting split then everything is searched, and nothing is accepted. -/
theorem acceptFrom_of_not_exists (h : ¬∃ blocks, org.IsSupportingSplit pool rs blocks) :
    (acceptFrom 1 (org.searchCoalitions pool rs)).isEmpty = true ∧
      (acceptFrom 1 (org.searchCoalitions pool rs)).reason = .searchSpaceExhausted := by
  have hoptimal := org.isOptimal_searchCoalitions pool rs
  simp only [isSupportingSplit_iff hpool] at h
  obtain ⟨hreason, -⟩ := hoptimal.exhausted h
  refine ⟨?_, (reason_acceptFrom 1 _).trans hreason⟩
  by_contra hnonempty
  rw [acceptFrom] at hnonempty
  split at hnonempty
  · exact hnonempty rfl
  · rename_i haccepted
    rcases hoptimal.split with ⟨hnil, -⟩ | ⟨hsplit, hvalue⟩
    · exact hnonempty (List.isEmpty_iff.2 hnil)
    · have hnumber := (SupportOracle.isShare ⟨org, rs, .zero⟩).isNumber_weakest
        (org.searchCoalitions pool rs).coalitions
      have hone : Double.IsNumber 1 := Double.isNumber_right (by decide +kernel : (0 : Double) ≤ 1)
      refine h ⟨_, hsplit, (hone.le_iff hnumber).2 (Int.not_lt.1 fun hless => haccepted ⟨?_, ?_⟩)⟩
      · rw [hvalue]
        exact (hnumber.lt_iff hone).2 hless
      · simpa using hnonempty

end Accepted

/-- A prepared organization without a time limit finds coalitions just if the atoms of the pool can
be split into supporting ones. Those that it finds are such a split, into as few as possible, and
their pools add up to the pool; if it finds none then it has searched everything. -/
theorem coalitions_decides (hprepared : org.isPrepared = true) (hpool : pool.isNull = false)
    (rs : List Resource) : ∃ found, org.coalitions pool rs .zero = .ok found ∧
      (found.isEmpty = false ↔ ∃ blocks, org.IsSupportingSplit pool rs blocks) ∧
      (found.isEmpty = false →
        org.IsSupportingSplit pool rs found.coalitions ∧
        (∀ blocks, org.IsSupportingSplit pool rs blocks →
          found.coalitions.length ≤ blocks.length) ∧
        Pool.sumAll found.pools = pool.normalized) ∧
      (found.isEmpty = true → found.reason = .searchSpaceExhausted) := by
  refine ⟨_, coalitions_eq hprepared pool rs, ?_⟩
  by_cases h : ∃ blocks, org.IsSupportingSplit pool rs blocks
  · obtain ⟨haccepted, hsplit, hfewest⟩ := acceptFrom_of_exists hpool h
    have hempty : (org.searchCoalitions pool rs).isEmpty = false := by
      refine isEmpty_eq_false_iff.2 fun hnil => ?_
      exact Pool.agents_ne_nil hpool (hnil ▸ hsplit.isSplit).perm.nil_eq.symm
    rw [haccepted, hempty]
    exact ⟨iff_of_true rfl h, fun _ => ⟨hsplit, hfewest, hsplit.sumAll_eq⟩, nofun⟩
  · obtain ⟨hempty, hreason⟩ := acceptFrom_of_not_exists hpool h
    rw [hempty]
    exact ⟨iff_of_false Bool.false_ne_true.symm h, nofun, fun _ => hreason⟩

/-- Four rovers, two by two. -/
def roversByTwo : List (List Agent) :=
  [[⟨⟨"Rover"⟩, 0⟩, ⟨⟨"Rover"⟩, 1⟩], [⟨⟨"Rover"⟩, 2⟩, ⟨⟨"Rover"⟩, 3⟩]]

/-- Four rovers with one link each cannot be linked up all together, but two by two they dig. -/
theorem coalitions_decides_rovers : ∃ org found,
    (diggers false).prepare (Pool.rovers 2) = .ok org ∧ org.isPrepared = true ∧
    (Pool.rovers 4).isNull = false ∧
    org.isSupporting (Pool.rovers 4) [⟨⟨"Dig"⟩, []⟩] .zero = .ok false ∧
    org.coalitions (Pool.rovers 4) [⟨⟨"Dig"⟩, []⟩] .zero = .ok found ∧
    found.isEmpty = false ∧ found.coalitions.length ≤ 2 ∧
    Pool.sumAll found.pools = (Pool.rovers 4).normalized := by
  obtain ⟨org, horg, htest⟩ : ∃ org, (diggers false).prepare (Pool.rovers 2) = .ok org ∧
      (org.isPrepared &&
        (org.isSupporting (Pool.rovers 4) [⟨⟨"Dig"⟩, []⟩] .zero).toOption.any (!·) &&
        (org.isSupporting (Pool.rovers 2) [⟨⟨"Dig"⟩, []⟩] .zero).toOption.any (·)) = true :=
    Pool.exists_ok_of_any (by decide +kernel)
  simp only [Bool.and_eq_true] at htest
  obtain ⟨⟨hprepared, hfour⟩, htwo⟩ := htest
  obtain ⟨four, hfour, hnot⟩ := Pool.exists_ok_of_any hfour
  obtain ⟨two, htwo, rfl⟩ := Pool.exists_ok_of_any htwo
  have hpool : (Pool.rovers 4).isNull = false := by decide +kernel
  have hpools : ∀ c ∈ roversByTwo, Pool.ofAgents c = Pool.rovers 2 := by decide +kernel
  have hagents : roversByTwo.flatten = (Pool.rovers 4).agents := by decide +kernel
  have hsplit : org.IsSupportingSplit (Pool.rovers 4) [⟨⟨"Dig"⟩, []⟩] roversByTwo :=
    ⟨⟨by decide, .of_eq hagents⟩, fun c hc => hpools c hc ▸ htwo⟩
  obtain ⟨found, hfound, hiff, hsome, -⟩ := coalitions_decides hprepared hpool [⟨⟨"Dig"⟩, []⟩]
  have hempty := hiff.2 ⟨_, hsplit⟩
  obtain ⟨-, hfewest, hsum⟩ := hsome hempty
  rw [Bool.not_eq_true'] at hnot
  exact ⟨org, found, horg, hprepared, hpool, hnot ▸ hfour, hfound, hempty, hfewest _ hsplit, hsum⟩

end Organization
end Muster
