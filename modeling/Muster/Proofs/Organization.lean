import Muster.Proofs.Functionality.Agreement
import Muster.Proofs.Organization.Composition

/-!
What a prepared organization answers about support. `supportAll` composes one noted pool for each
resource, and such a composition lies within a pool just if each resource has a noted pool there.
`isSupporting` looks for one pool that is noted for every resource. That is the same if all pools
that serve are noted, or if all resources are of one model; where only minimal pools are noted, two
resources may have none in common.

Main statements: `holds_supportAll`, `isSupporting_spec`, `isSupporting_iff_holds_supportAll`.
-/

namespace Muster

/-! ### Pools within a pool -/

namespace Pool

variable {p q pool : Pool} {ps : PoolSet}

/-- Whether one of some pools lies within a pool. -/
def Holds (pool : Pool) (ps : PoolSet) : Prop := ∃ s ∈ ps, s.isSubset pool = true

instance (pool : Pool) (ps : PoolSet) : Decidable (pool.Holds ps) :=
  inferInstanceAs (Decidable (∃ s ∈ ps.toList, s.isSubset pool = true))

theorem mem_boundAll_iff {bound : Pool} : q ∈ boundAll ps bound ↔
    ∃ p ∈ ps, p.bounded bound = some q ∧ q.isEmpty = false := by
  rw [boundAll, OrderedSet.filterMap, OrderedSet.mem_ofList, List.mem_filterMap]
  refine exists_congr fun p => and_congr_right fun _ => ?_
  rw [Option.filter_eq_some_iff, Bool.not_eq_true']

/-! ### Mappings -/

section Mapping

variable {o : Ontology} {c : MappingConfig} {clock : Clock} {fs : List Model} {f : Model}
  {m : FunctionalityMapping}

theorem isEmpty_of_functionalityMapping {useSaturation : Bool}
    (h : functionalityMapping o c clock pool fs useSaturation = .ok m) : pool.isEmpty = false := by
  rw [functionalityMapping] at h
  split at h
  · exact absurd h (by simp)
  · rename_i hpool
    exact Bool.not_eq_true _ ▸ hpool

theorem fullMapping_of_functionalityMapping
    (h : functionalityMapping o c clock pool fs false = .ok m) :
    fullMapping o c clock pool fs = .ok m := by
  rw [functionalityMapping] at h
  split at h
  · exact absurd h (by simp)
  · split at h
    · exact absurd h (by simp)
    · exact h

/-- Without bounds the pools that are noted are those that are tried and serve. -/
theorem mem_poolsOf_iff_serves (h : functionalityMapping o c clock pool fs false = .ok m) :
    p ∈ m.poolsOf f ↔ f ∈ fs ∧ p ∈ (c.combinations pool).toList ∧ Serves o [f] p := by
  have hmaps : Maps _ _ c (fullMapping o c clock pool fs) := fullMapping_spec
  exact hmaps.mem_iff m (fullMapping_of_functionalityMapping h) p f

/-- With bounds the pools that are noted are found minimal. -/
theorem exists_isFoundMinimal (h : functionalityMapping o c clock pool fs true = .ok m)
    (hp : p ∈ m.poolsOf f) :
    f ∈ fs ∧ ∃ limits, IsFoundMinimal o c clock pool (pool.min limits) p f := by
  obtain ⟨hpool, hm⟩ := minimalMapping_of_functionalityMapping h
  obtain ⟨limits, hlimits, -⟩ := SupportVector.saturationBound_all hpool o fs
  have hmaps : Maps _ _ c (minimalMapping o c clock pool fs) := minimalMapping_spec hpool hlimits
  obtain ⟨hf, hfound⟩ := (hmaps.mem_iff m hm p f).1 hp
  exact ⟨hf, limits, hfound⟩

/-- Every pool that is noted holds something and lies within the pool that was searched. -/
theorem within_of_mem_poolsOf {useSaturation : Bool}
    (h : functionalityMapping o c clock pool fs useSaturation = .ok m) (hp : p ∈ m.poolsOf f) :
    f ∈ fs ∧ p.IsNormal ∧ p.isSubset pool = true ∧ p.isEmpty = false := by
  cases useSaturation with
  | true =>
    obtain ⟨hf, limits, hfound⟩ := exists_isFoundMinimal h hp
    obtain ⟨own, hown, -⟩ :=
      SupportVector.saturationBound_plain (isEmpty_of_functionalityMapping h) o f
    obtain ⟨hnormal, hsome, hle, -⟩ := hfound.bounds hown
    exact ⟨hf, hnormal, (isSubset_min_iff.1 hle).1, hsome⟩
  | false =>
    obtain ⟨hf, hcombination, -⟩ := (mem_poolsOf_iff_serves h).1 hp
    exact ⟨hf, MappingConfig.of_mem_combinations hcombination⟩

/-- Every pool that is noted for a functionality serves it. -/
theorem serves_of_mem_poolsOf {useSaturation : Bool}
    (h : functionalityMapping o c clock pool fs useSaturation = .ok m) (hp : p ∈ m.poolsOf f) :
    Serves o [f] p := by
  cases useSaturation with
  | true =>
    obtain ⟨-, limits, hfound⟩ := exists_isFoundMinimal h hp
    exact (isMinimal_eq_true_iff.1 hfound.isMinimal).1
  | false => exact ((mem_poolsOf_iff_serves h).1 hp).2.2

/-- Without bounds and limits, a pool that holds one that is noted is noted, as far as it lies
within the pool that was searched. -/
theorem min_mem_poolsOf (h : functionalityMapping o c clock pool fs false = .ok m)
    (hlimit : c.combinationLimit = none) {s : Pool} (hs : s ∈ m.poolsOf f)
    (hle : s.isSubset q = true) : q.min pool ∈ m.poolsOf f := by
  obtain ⟨hf, hcombination, hserves⟩ := (mem_poolsOf_iff_serves h).1 hs
  obtain ⟨hnormal, hle', hsome⟩ := MappingConfig.of_mem_combinations hcombination
  have hsub : s.isSubset (q.min pool) = true := isSubset_min_iff.2 ⟨hle, hle'⟩
  exact (mem_poolsOf_iff_serves h).2 ⟨hf, (MappingConfig.mem_combinations_iff hlimit).2
    ⟨isNormal_zipWith _ q pool, min_isSubset_right q pool, isEmpty_of_isSubset hnormal hsome hsub⟩,
    hserves.mono hsub⟩

end Mapping

end Pool

/-! ### Support -/

namespace Organization

variable {org : Organization} {m : FunctionalityMapping} {pool : Pool} {r : Resource}
  {rs : List Resource}

section Mapping

variable (hm : org.mapping = .ok m)
include hm

/-- The pools that serve a resource without constraints are those that are noted for its model. -/
theorem support_plain (hr : r.hasConstraints = false) :
    org.support r = .ok (m.poolsOf r.model) := by
  rw [support, hm]
  simp only [bind, Except.bind, pure, Except.pure, hr, Bool.not_false, if_true]

/-- What serves all resources lies within a pool just if each resource has a noted pool there. -/
theorem holds_supportAll (hne : rs ≠ []) (hplain : ∀ r ∈ rs, r.hasConstraints = false) :
    ∃ pools, org.supportAll rs = .ok pools ∧ ∀ pool : Pool,
      pool.Holds pools ↔ ∀ r ∈ rs, pool.Holds (m.poolsOf r.model) := by
  obtain ⟨pools, hpools, -⟩ := supportAll_spec hm rs
  refine ⟨pools, hpools, fun pool => ?_⟩
  refine (exists_mem_supportAll_iff hm (fun _ _ => Pool.isSubset_max_iff) hpools).trans ?_
  rw [and_iff_right hne]
  refine forall₂_congr fun r hr => ?_
  rw [support_plain hm (hplain r hr)]
  simp only [Except.ok.injEq, exists_eq_left']
  rfl

theorem mem_commonSupport (hne : rs ≠ []) : ∃ pools, org.commonSupport rs = .ok pools ∧
    ∀ s, s ∈ pools ↔ ∀ r ∈ rs, s ∈ m.poolsOf r.model := by
  obtain ⟨r, rest, rfl⟩ := List.exists_cons_of_ne_nil hne
  rw [commonSupport, hm]
  refine ⟨_, rfl, fun s => ?_⟩
  rw [OrderedSet.mem_filter, List.forall_mem_cons]
  simp

/-- A pool is supporting just if it can be wired and holds a pool that is noted for every
resource, whatever the constraints of the resources. -/
theorem isSupporting_spec (hne : rs ≠ []) (pool : Pool) (timeout : Duration) :
    ∃ answer, org.isSupporting pool rs timeout = .ok answer ∧
      (answer = true ↔ org.isFeasible pool timeout = true ∧
        ∃ s, s.isSubset pool = true ∧ ∀ r ∈ rs, s ∈ m.poolsOf r.model) := by
  obtain ⟨pools, hpools, hmem⟩ := mem_commonSupport hm hne
  rw [isSupporting, hpools]
  refine ⟨_, rfl, ?_⟩
  rw [Bool.and_eq_true, List.any_eq_true, and_comm]
  refine and_congr_right fun _ => exists_congr fun s => ?_
  rw [← OrderedSet.mem_def, hmem, and_comm]

end Mapping

/-! ### Prepared organizations -/

/-- A prepared organization has the mapping of its actors. -/
theorem mapping_of_prepare {fleet : Pool} {org₀ : Organization} (h : org₀.prepare fleet = .ok org) :
    ∃ m, org.mapping = .ok m ∧ Pool.functionalityMapping org.ontology org.config org.clock org.pool
      org.functionalities org.config.useSaturation = .ok m := by
  rw [prepare, mappingOf] at h
  cases hm : Pool.functionalityMapping org₀.ontology org₀.config org₀.clock
      (fleet.subclassesOnly org₀.ontology Vocabulary.actor) org₀.functionalities
      org₀.config.useSaturation with
  | error e => simp [hm, answer, Except.mapError, bind, Except.bind] at h
  | ok m =>
    rw [hm] at h
    obtain rfl := Except.ok.inj h
    exact ⟨m, rfl, hm⟩

section Prepared

variable {fleet : Pool} {org₀ : Organization} (h : org₀.prepare fleet = .ok org)
include h

/-- A pool that is supporting can be wired and holds one that serves all resources. If all pools
that serve are noted, or all resources are of one model, then every such pool is supporting. -/
theorem isSupporting_iff_holds_supportAll (hne : rs ≠ [])
    (hplain : ∀ r ∈ rs, r.hasConstraints = false) (pool : Pool) (timeout : Duration) :
    ∃ pools answer, org.supportAll rs = .ok pools ∧
      org.isSupporting pool rs timeout = .ok answer ∧
      (answer = true → org.isFeasible pool timeout = true ∧ pool.Holds pools) ∧
      (org.config.useSaturation = false ∧ org.config.combinationLimit = none ∨
          (∃ f, ∀ r ∈ rs, r.model = f) →
        org.isFeasible pool timeout = true → pool.Holds pools → answer = true) := by
  obtain ⟨m, hm, hmapping⟩ := mapping_of_prepare h
  obtain ⟨pools, hpools, hholds⟩ := holds_supportAll hm hne hplain
  obtain ⟨answer, hanswer, hiff⟩ := isSupporting_spec hm hne pool timeout
  refine ⟨pools, answer, hpools, hanswer, fun htrue => ?_, fun hall hfeasible hholds' => ?_⟩
  · obtain ⟨hfeasible, s, hle, hs⟩ := hiff.1 htrue
    exact ⟨hfeasible, (hholds pool).2 fun r hr => ⟨s, hs r hr, hle⟩⟩
  · rw [hholds] at hholds'
    refine hiff.2 ⟨hfeasible, ?_⟩
    rcases hall with ⟨hfull, hlimit⟩ | ⟨f, hf⟩
    · -- what the pool has of the actors serves every resource
      rw [hfull] at hmapping
      refine ⟨pool.min org.pool, Pool.min_isSubset_left pool org.pool, fun r hr => ?_⟩
      obtain ⟨s, hs, hle⟩ := hholds' r hr
      exact Pool.min_mem_poolsOf hmapping hlimit hs hle
    · obtain ⟨r, rest, rfl⟩ := List.exists_cons_of_ne_nil hne
      obtain ⟨s, hs, hle⟩ := hholds' r List.mem_cons_self
      refine ⟨s, hle, fun r' hr' => ?_⟩
      rw [hf r' hr', ← hf r List.mem_cons_self]
      exact hs

end Prepared

/-- Rovers that link up with each other; digging takes two of them and waving one. -/
def diggersAndWavers : CatalogDraft :=
  (((Pool.roversWithArms.subclass ⟨"Rover"⟩ Vocabulary.actor).subclass ⟨"Dig"⟩
    Vocabulary.functionality).subclass ⟨"Wave"⟩ Vocabulary.functionality).has ⟨"Wave"⟩ ⟨"Arm"⟩ 1 1

/-- An organization of rovers, with bounds or without. -/
def diggers (useSaturation : Bool) : Organization where
  ontology := diggersAndWavers.build.ontology
  clock := Pool.stopped
  config := { Pool.linkedInOrder with useSaturation }

/-- Digging and waving. -/
def digAndWave : List Resource := [⟨⟨"Dig"⟩, []⟩, ⟨⟨"Wave"⟩, []⟩]

/-- Without bounds two rovers are noted for digging and for waving. -/
theorem isSupporting_diggers : ∃ org, (diggers false).prepare (Pool.rovers 2) = .ok org ∧
    org.isSupporting (Pool.rovers 2) digAndWave ⟨0⟩ = .ok true := by
  obtain ⟨org, horg, htest⟩ : ∃ org, (diggers false).prepare (Pool.rovers 2) = .ok org ∧
      (org.config.useSaturation == false && org.config.combinationLimit.isNone &&
        org.isFeasible (Pool.rovers 2) ⟨0⟩ && (org.supportAll digAndWave).toOption.any fun pools =>
          decide ((Pool.rovers 2).Holds pools)) = true := Pool.exists_ok_of_any (by decide +kernel)
  simp only [Bool.and_eq_true, beq_iff_eq, Option.isNone_iff_eq_none] at htest
  obtain ⟨⟨⟨hfull, hlimit⟩, hfeasible⟩, hany⟩ := htest
  obtain ⟨pools, hpools, hholds⟩ := Pool.exists_ok_of_any hany
  have hne : digAndWave ≠ [] := by decide
  have hplain : ∀ r ∈ digAndWave, r.hasConstraints = false := by decide
  obtain ⟨pools', answer, hpools', hanswer, -, hall⟩ :=
    isSupporting_iff_holds_supportAll horg hne hplain (Pool.rovers 2) ⟨0⟩
  obtain rfl := Except.ok.inj (hpools.symm.trans hpools')
  have htrue := hall (.inl ⟨hfull, hlimit⟩) hfeasible (of_decide_eq_true hholds)
  exact ⟨org, horg, htrue ▸ hanswer⟩

/-- With bounds two rovers are noted for digging and one for waving, but no pool for both. -/
theorem not_isSupporting_diggers : ∃ org pools,
    (diggers true).prepare (Pool.rovers 2) = .ok org ∧ org.supportAll digAndWave = .ok pools ∧
    (Pool.rovers 2).Holds pools ∧ org.isFeasible (Pool.rovers 2) ⟨0⟩ = true ∧
    org.isSupporting (Pool.rovers 2) digAndWave ⟨0⟩ = .ok false := by
  obtain ⟨org, horg, htest⟩ : ∃ org, (diggers true).prepare (Pool.rovers 2) = .ok org ∧
      (org.isFeasible (Pool.rovers 2) ⟨0⟩ &&
        ((org.supportAll digAndWave).toOption.any fun pools =>
          decide ((Pool.rovers 2).Holds pools)) &&
        (org.isSupporting (Pool.rovers 2) digAndWave ⟨0⟩).toOption.any fun answer => !answer) =
      true := Pool.exists_ok_of_any (by decide +kernel)
  rw [Bool.and_eq_true, Bool.and_eq_true] at htest
  obtain ⟨⟨hfeasible, hholds⟩, hanswer⟩ := htest
  obtain ⟨pools, hpools, hholds⟩ := Pool.exists_ok_of_any hholds
  obtain ⟨answer, hanswer, hfalse⟩ := Pool.exists_ok_of_any hanswer
  rw [Bool.not_eq_true'] at hfalse
  exact ⟨org, pools, horg, hpools, of_decide_eq_true hholds, hfeasible, hfalse ▸ hanswer⟩

end Organization
end Muster
