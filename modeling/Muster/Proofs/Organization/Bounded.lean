import Muster.Proofs.Organization

/-!
Support within the saturation bound. The minimal pools that serve some resources together are kept
within the largest of what the resources can use one by one. If only pools within these bounds are
noted, nothing is cut off. Otherwise a pool may be cut, and what is left of it serves only if the
bound is ample: together, resources may need more than the largest of what each can use.

Main statements: `Serves.min`, `forall_mem_supportAll`, `boundedSupport_spec`,
`exists_boundedSupport`.
-/

namespace Muster

namespace Pool

open SupportVector

variable {o : Ontology} {fs : List Model} {p pool bound : Pool}

/-! ### Ample bounds -/

/-- Whether a bound has as many instances of each model of a pool as the largest ratio of a need to
what the model offers. The numbers have to be exact. -/
structure IsAmple (o : Ontology) (fs : List Model) (pool bound : Pool) : Prop where
  need_lt : ∀ l ∈ ownLabels o fs, unitsFor o fs false l < 2 ^ 53
  offer_lt : ∀ a ∈ pool.models, ∀ l ∈ ownLabels o fs, unitsFor o [a] true l < 2 ^ 53
  ratioBound_le : ∀ a ∈ pool.models, ratioBound (tabulate (ownLabels o fs) fun l =>
    ratio (need o fs l) (offer o a l)) ≤ (bound.count a).toNat

instance (o : Ontology) (fs : List Model) (pool bound : Pool) :
    Decidable (IsAmple o fs pool bound) :=
  decidable_of_iff ((∀ l ∈ ownLabels o fs, unitsFor o fs false l < 2 ^ 53) ∧
      ∀ a ∈ pool.models.toList, (∀ l ∈ ownLabels o fs, unitsFor o [a] true l < 2 ^ 53) ∧
        ratioBound (tabulate (ownLabels o fs) fun l => ratio (need o fs l) (offer o a l)) ≤
          (bound.count a).toNat)
    ⟨fun ⟨hneed, hall⟩ => ⟨hneed, fun a ha => (hall a ha).1, fun a ha => (hall a ha).2⟩,
      fun h => ⟨h.need_lt, fun a ha => ⟨h.offer_lt a ha, h.ratioBound_le a ha⟩⟩⟩

/-- A pool that is kept within an ample bound serves as before. A model that is cut meets by itself
each need that it meets in part. -/
theorem Serves.min (h : Serves o fs p) (hle : p.isSubset pool = true)
    (hbound : IsAmple o fs pool bound) : Serves o fs (p.min bound) := by
  intro l hl
  by_cases hcut : ∃ a, unitsFor o [a] true l ≠ 0 ∧ bound.count a < p.count a
  · obtain ⟨a, hoffer, hlt⟩ := hcut
    have hcount : (p.min bound).count a = bound.count a := by rw [count_min, if_pos hlt]
    have ha : a ∈ pool.models := mem_models_of_count_ne_zero fun hzero => by
      rw [count_eq_zero_of_isSubset hle hzero] at hlt
      exact UInt32.not_lt_zero hlt
    refine need_le_supply hl hoffer (hbound.need_lt l hl) (hbound.offer_lt a ha l hl) ?_ ?_
    · rw [hcount]
      exact hbound.ratioBound_le a ha
    · have hlimit := (p.count a).toNat_lt
      rw [UInt32.lt_iff_toNat_lt] at hlt
      rw [hcount, countLimit]
      omega
  · push Not at hcut
    refine (h l hl).trans (supply_le_of_offered fun a ha => ?_)
    rw [count_min, if_neg (hcut a ha)]
    exact UInt32.le_refl _

/-- Without bounds and limits, what an ample bound leaves of a pool is noted if a part of the pool
is. -/
theorem min_mem_poolsOf_of_isAmple {c : MappingConfig} {clock : Clock} {m : FunctionalityMapping}
    {f : Model} (h : functionalityMapping o c clock pool fs false = .ok m)
    (hlimit : c.combinationLimit = none) (hle : p.isSubset pool = true)
    (hsome : (p.min bound).isEmpty = false) (hholds : p.Holds (m.poolsOf f))
    (hbound : IsAmple o [f] pool bound) : p.min bound ∈ m.poolsOf f := by
  obtain ⟨s, hs, hsub⟩ := hholds
  have hserves : Serves o [f] p := (serves_of_mem_poolsOf h hs).mono hsub
  have hwithin : (p.min bound).isSubset pool = true :=
    isSubset_trans (min_isSubset_left p bound) hle
  refine (mem_poolsOf_iff_serves h).2 ⟨((mem_poolsOf_iff_serves h).1 hs).1,
    (MappingConfig.mem_combinations_iff hlimit).2 ⟨?_, hwithin, hsome⟩, hserves.min hle hbound⟩
  exact isNormal_zipWith _ p bound

end Pool

namespace Organization

open Pool (IsAmple)

variable {org org₀ : Organization} {m : FunctionalityMapping} {fleet p q s bound : Pool}
  {r : Resource} {rs : List Resource} {pools : PoolSet}

section Mapping

variable (hm : org.mapping = .ok m)
include hm

/-- What maxima keep is true of all pools that serve some resources if it is true of all pools that
are noted for them. -/
theorem forall_mem_supportAll {P : Pool → Prop} (hmax : ∀ s t, P s → P t → P (s.max t))
    (hplain : ∀ r ∈ rs, r.hasConstraints = false)
    (hnoted : ∀ r ∈ rs, ∀ s ∈ m.poolsOf r.model, P s) (hpools : org.supportAll rs = .ok pools) :
    ∀ p ∈ pools, P p := by
  obtain ⟨pools', hpools', hmem⟩ := supportAll_spec hm rs
  obtain rfl := Except.ok.inj (hpools.symm.trans hpools')
  intro q hq
  obtain ⟨p, ps, hchoice, rfl⟩ := (hmem q).1 hq
  have hall : ∀ s ∈ p :: ps, P s := hchoice.forall_mem fun r hr served hserved s hs => by
    obtain rfl := Except.ok.inj ((support_plain hm (hplain r hr)).symm.trans hserved)
    exact hnoted r hr s hs
  obtain ⟨hp, hps⟩ := List.forall_mem_cons.1 hall
  exact List.foldlRecOn ps Pool.max hp fun s hs t ht => hmax s t hs (hps t ht)

/-- A pool that is noted for each of some resources serves them together. -/
theorem mem_supportAll (hq : q.IsNormal) (hne : rs ≠ [])
    (hplain : ∀ r ∈ rs, r.hasConstraints = false) (hnoted : ∀ r ∈ rs, q ∈ m.poolsOf r.model)
    (hpools : org.supportAll rs = .ok pools) : q ∈ pools := by
  obtain ⟨pools', hpools', hmem⟩ := supportAll_spec hm rs
  obtain rfl := Except.ok.inj (hpools.symm.trans hpools')
  obtain ⟨ps, hchoice, hsame⟩ := exists_isChoice_iff.2 fun r hr =>
    ⟨_, support_plain hm (hplain r hr), q, hnoted r hr, rfl⟩
  cases ps with
  | nil => exact absurd (List.forall₂_nil_right_iff.1 hchoice) hne
  | cons p ps =>
    obtain ⟨rfl, hps⟩ := List.forall_mem_cons.1 hsame
    have hfold : ps.foldl Pool.max q = q :=
      List.foldlRecOn (motive := (· = q)) ps Pool.max rfl fun s hs t ht => by
        rw [hs, ← hps t ht, Pool.max_self hq]
    exact (hmem q).2 ⟨q, ps, hchoice, hfold⟩

end Mapping

/-- Resources without constraints are no more than their models. -/
theorem map_plain (hplain : ∀ r ∈ rs, r.hasConstraints = false) :
    (rs.map (·.model)).map (fun f => (⟨f, []⟩ : Resource)) = rs := by
  rw [List.map_map]
  refine (List.map_congr_left fun r hr => ?_).trans (List.map_id rs)
  have hnone : r.constraints = [] := by simpa [Resource.hasConstraints] using hplain r hr
  exact congrArg (Resource.mk r.model) hnone.symm

/-- What is found within the bound: the minimal pools that serve all resources, as far as the bound
has an instance of each of their models, kept within it. -/
theorem boundedSupport_spec (hpools : org.supportAll rs = .ok pools)
    (hbound : org.saturationBound rs = .ok bound) :
    ∃ found, org.boundedSupport rs = .ok found ∧ ∀ q, q ∈ found ↔ ∃ p ∈ pools,
      p.isMinimal org.ontology (rs.map (·.model)) = .ok true ∧ p.bounded bound = some q ∧
        q.isEmpty = false := by
  obtain ⟨kept, hkept, hminimal⟩ := Pool.minimalOf_spec org.ontology (rs.map (·.model)) pools
  refine ⟨Pool.boundAll kept bound, ?_, fun q => ?_⟩
  · rw [boundedSupport, hpools]
    simp only [bind, Except.bind, hkept, hbound, answer, Except.mapError, pure, Except.pure]
  · simp only [Pool.mem_boundAll_iff, hminimal, and_assoc]

section Prepared

variable (h : org₀.prepare fleet = .ok org)
include h

/-- There is a bound. What is noted for a resource lies within it, if what lies beyond is not
tried. -/
theorem saturationBound_plain (hm : org.mapping = .ok m)
    (hplain : ∀ r ∈ rs, r.hasConstraints = false) :
    ∃ bound, org.saturationBound rs = .ok bound ∧ (org.config.useSaturation = true →
      ∀ r ∈ rs, ∀ s ∈ m.poolsOf r.model, s.isSubset bound = true) := by
  obtain ⟨m', hm', hmapping⟩ := mapping_of_prepare h
  obtain rfl := Except.ok.inj (hm.symm.trans hm')
  have hpool := Pool.isEmpty_of_functionalityMapping hmapping
  obtain ⟨bound, hbound, hall⟩ :=
    SupportVector.saturationBound_all hpool org.ontology (rs.map (·.model))
  rw [map_plain hplain] at hbound
  refine ⟨bound, ?_, fun hsaturation r hr s hs => ?_⟩
  · rw [saturationBound, hm, hbound]
    rfl
  · rw [hsaturation] at hmapping
    obtain ⟨-, limits, hfound⟩ := Pool.exists_isFoundMinimal hmapping hs
    obtain ⟨own, hown, -⟩ := SupportVector.saturationBound_plain hpool org.ontology r.model
    obtain ⟨-, -, -, hle⟩ := hfound.bounds hown
    exact Pool.isSubset_trans hle (hall r.model (List.mem_map_of_mem hr) own hown)

/-- A pool that serves all resources together holds something, is within the actors at hand and holds
a pool that is noted for each resource. -/
theorem within_of_mem_supportAll (hm : org.mapping = .ok m) (hne : rs ≠ [])
    (hplain : ∀ r ∈ rs, r.hasConstraints = false) (hpools : org.supportAll rs = .ok pools)
    (hp : p ∈ pools) : p.IsNormal ∧ p.isSubset org.pool = true ∧ p.isEmpty = false ∧
      ∀ r ∈ rs, p.Holds (m.poolsOf r.model) := by
  obtain ⟨m', hm', hmapping⟩ := mapping_of_prepare h
  obtain rfl := Except.ok.inj (hm.symm.trans hm')
  obtain ⟨pools', hpools', hholds⟩ := holds_supportAll hm hne hplain
  obtain rfl := Except.ok.inj (hpools.symm.trans hpools')
  have hnoted : ∀ r ∈ rs, ∀ s ∈ m.poolsOf r.model, s.IsNormal ∧ s.isSubset org.pool = true := by
    intro r _ s hs
    obtain ⟨-, hnormal, hle, -⟩ := Pool.within_of_mem_poolsOf hmapping hs
    exact ⟨hnormal, hle⟩
  obtain ⟨hnormal, hle⟩ := forall_mem_supportAll hm
    (fun s t hs ht => ⟨Pool.isNormal_zipWith _ s t, Pool.isSubset_max_iff.2 ⟨hs.2, ht.2⟩⟩)
    hplain hnoted hpools p hp
  have hnoted' := (hholds p).1 ⟨p, hp, Pool.isSubset_refl p⟩
  obtain ⟨r, hr⟩ := List.exists_mem_of_ne_nil rs hne
  obtain ⟨s, hs, hsub⟩ := hnoted' r hr
  obtain ⟨-, hnormal', -, hsome⟩ := Pool.within_of_mem_poolsOf hmapping hs
  exact ⟨hnormal, hle, Pool.isEmpty_of_isSubset hnormal' hsome hsub, hnoted'⟩

/-- The minimal pools within the bound that serve all resources are found, and what is found is such
a pool, kept within the bound. If only pools within the bounds are noted, nothing is cut off.
Without bounds what is left serves all resources together if the bound is ample for them, and each
of them if it is ample for each. -/
theorem exists_boundedSupport (hne : rs ≠ []) (hplain : ∀ r ∈ rs, r.hasConstraints = false) :
    ∃ pools bound found, org.supportAll rs = .ok pools ∧ org.saturationBound rs = .ok bound ∧
      org.boundedSupport rs = .ok found ∧
      (∀ p ∈ pools, p.isMinimal org.ontology (rs.map (·.model)) = .ok true →
        p.isSubset bound = true → p ∈ found) ∧
      ∀ q ∈ found, q.isSubset bound = true ∧
        (∃ p ∈ pools, p.isMinimal org.ontology (rs.map (·.model)) = .ok true ∧ q = p.min bound ∧
          Pool.supportType org.ontology (rs.map (·.model)) p = .ok .fullSupport ∧
          (org.config.useSaturation = true ∨ p.isSubset bound = true → q = p)) ∧
        (IsAmple org.ontology (rs.map (·.model)) org.pool bound →
          Pool.supportType org.ontology (rs.map (·.model)) q = .ok .fullSupport) ∧
        (org.config.useSaturation = false → org.config.combinationLimit = none →
          (∀ r ∈ rs, IsAmple org.ontology [r.model] org.pool bound) → q ∈ pools) := by
  obtain ⟨m, hm, hmapping⟩ := mapping_of_prepare h
  obtain ⟨pools, hpools, -⟩ := holds_supportAll hm hne hplain
  obtain ⟨bound, hbound, hsaturated⟩ := saturationBound_plain h hm hplain
  obtain ⟨found, hfound, hmem⟩ := boundedSupport_spec hpools hbound
  have hwithin := fun p (hp : p ∈ pools) => within_of_mem_supportAll h hm hne hplain hpools hp
  refine ⟨pools, bound, found, hpools, hbound, hfound, fun p hp hmin hle => ?_, fun q hq => ?_⟩
  · obtain ⟨hnormal, -, hsome, -⟩ := hwithin p hp
    exact (hmem p).2 ⟨p, hp, hmin, Pool.bounded_of_isSubset hnormal hle, hsome⟩
  obtain ⟨p, hp, hmin, hbounded, hsome⟩ := (hmem q).1 hq
  obtain ⟨hnormal, hle, -, hholds⟩ := hwithin p hp
  have hserves := (Pool.isMinimal_eq_true_iff.1 hmin).1
  obtain rfl := Pool.eq_min_of_bounded hbounded
  refine ⟨Pool.min_isSubset_right p bound,
    ⟨p, hp, hmin, rfl, Pool.supportType_eq_full_iff.2 hserves, fun huncut => ?_⟩,
    fun hample => Pool.supportType_eq_full_iff.2 (hserves.min hle hample),
    fun hfull hlimit hample => ?_⟩
  · have hle' : p.isSubset bound = true := by
      rcases huncut with hsaturation | hle'
      · exact forall_mem_supportAll hm (fun s t hs ht => Pool.isSubset_max_iff.2 ⟨hs, ht⟩)
          hplain (hsaturated hsaturation) hpools p hp
      · exact hle'
    exact Option.some.inj (hbounded.symm.trans (Pool.bounded_of_isSubset hnormal hle'))
  · have hnormal' : (p.min bound).IsNormal := Pool.isNormal_zipWith _ p bound
    refine mem_supportAll hm hnormal' hne hplain (fun r hr => ?_) hpools
    rw [hfull] at hmapping
    exact Pool.min_mem_poolsOf_of_isAmple hmapping hlimit hle hsome (hholds r hr) (hample r hr)

end Prepared

/-- Two rovers dig and wave. With three at hand and no bounds, more are noted than are found. -/
theorem exists_boundedSupport_diggers : ∃ org pools found,
    (diggers false).prepare (Pool.rovers 3) = .ok org ∧ org.supportAll digAndWave = .ok pools ∧
    org.boundedSupport digAndWave = .ok found ∧ Pool.rovers 3 ∈ pools ∧ Pool.rovers 3 ∉ found ∧
    Pool.rovers 2 ∈ found ∧ Pool.rovers 2 ∈ pools ∧
    Pool.supportType org.ontology (digAndWave.map (·.model)) (Pool.rovers 2) =
      .ok .fullSupport := by
  obtain ⟨org, horg, htest⟩ : ∃ org, (diggers false).prepare (Pool.rovers 3) = .ok org ∧
      (decide (org.config.useSaturation = false ∧ org.config.combinationLimit = none) &&
        ((org.saturationBound digAndWave).toOption.any (fun bound =>
          decide (IsAmple org.ontology (digAndWave.map (·.model)) org.pool bound ∧
            ∀ r ∈ digAndWave, IsAmple org.ontology [r.model] org.pool bound)) &&
        ((org.supportAll digAndWave).toOption.any (fun pools => decide (Pool.rovers 3 ∈ pools)) &&
        (org.boundedSupport digAndWave).toOption.any fun found =>
          decide (Pool.rovers 3 ∉ found ∧ Pool.rovers 2 ∈ found)))) = true :=
    Pool.exists_ok_of_any (by decide +kernel)
  simp only [Bool.and_eq_true, decide_eq_true_iff] at htest
  obtain ⟨⟨hfull, hlimit⟩, hample, hpools, hfound⟩ := htest
  obtain ⟨bound, hbound, hample⟩ := Pool.exists_ok_of_any hample
  obtain ⟨pools, hpools, hthree⟩ := Pool.exists_ok_of_any hpools
  obtain ⟨found, hfound, hmem⟩ := Pool.exists_ok_of_any hfound
  obtain ⟨hample, heach⟩ := of_decide_eq_true hample
  obtain ⟨hnone, htwo⟩ := of_decide_eq_true hmem
  obtain ⟨pools', bound', found', hpools', hbound', hfound', -, hall⟩ :=
    exists_boundedSupport horg (by decide : digAndWave ≠ []) (by decide)
  obtain rfl := Except.ok.inj (hpools.symm.trans hpools')
  obtain rfl := Except.ok.inj (hbound.symm.trans hbound')
  obtain rfl := Except.ok.inj (hfound.symm.trans hfound')
  obtain ⟨-, -, hserves, hnoted⟩ := hall (Pool.rovers 2) htwo
  exact ⟨org, pools, found, horg, hpools, hfound, of_decide_eq_true hthree, hnone, htwo,
    hnoted hfull hlimit heach, hserves hample⟩

/-- Digging takes three arms, grasping three claws and working a tool. Arms and claws, of which
rovers have one each, are tools. -/
def armsAndClaws : CatalogDraft :=
  ((((((((((({} : CatalogDraft).subclass ⟨"Rover"⟩ Vocabulary.actor).subclass ⟨"Dig"⟩
    Vocabulary.functionality).subclass ⟨"Grasp"⟩ Vocabulary.functionality).subclass ⟨"Work"⟩
    Vocabulary.functionality).subclass ⟨"Arm"⟩ ⟨"Tool"⟩).subclass ⟨"Claw"⟩ ⟨"Tool"⟩).has ⟨"Dig"⟩
    ⟨"Arm"⟩ 3 3).has ⟨"Grasp"⟩ ⟨"Claw"⟩ 3 3).has ⟨"Work"⟩ ⟨"Tool"⟩ 1 1).has ⟨"Rover"⟩ ⟨"Arm"⟩ 0
    1).has ⟨"Rover"⟩ ⟨"Claw"⟩ 0 1

/-- An organization of rovers with claws, without bounds. -/
def workers : Organization where
  ontology := armsAndClaws.build.ontology
  clock := Pool.stopped
  config := { useSaturation := false, checkWiring := false }

/-- Digging, grasping and working. -/
def digGraspAndWork : List Resource := [⟨⟨"Dig"⟩, []⟩, ⟨⟨"Grasp"⟩, []⟩, ⟨⟨"Work"⟩, []⟩]

/-- Three rovers are enough for each, but together it takes seven tools. Four rovers are cut down to
three, which do not serve. -/
theorem boundedSupport_workers : ∃ org bound found,
    workers.prepare (Pool.rovers 4) = .ok org ∧
    org.saturationBound digGraspAndWork = .ok bound ∧ bound = Pool.rovers 3 ∧
    org.boundedSupport digGraspAndWork = .ok found ∧ Pool.rovers 3 ∈ found ∧
    Pool.supportType org.ontology (digGraspAndWork.map (·.model)) (Pool.rovers 4) =
      .ok .fullSupport ∧
    Pool.supportType org.ontology (digGraspAndWork.map (·.model)) (Pool.rovers 3) ≠
      .ok .fullSupport := by
  obtain ⟨org, horg, htest⟩ : ∃ org, workers.prepare (Pool.rovers 4) = .ok org ∧
      ((org.saturationBound digGraspAndWork).toOption.any
          (fun bound => decide (bound = Pool.rovers 3)) &&
        (org.boundedSupport digGraspAndWork).toOption.any
          (fun found => decide (Pool.rovers 3 ∈ found)) &&
        decide (Pool.Serves org.ontology (digGraspAndWork.map (·.model)) (Pool.rovers 4) ∧
          ¬ Pool.Serves org.ontology (digGraspAndWork.map (·.model)) (Pool.rovers 3))) = true :=
    Pool.exists_ok_of_any (by decide +kernel)
  simp only [Bool.and_eq_true, decide_eq_true_iff] at htest
  obtain ⟨⟨hbound, hfound⟩, hfour, hthree⟩ := htest
  obtain ⟨bound, hbound, heq⟩ := Pool.exists_ok_of_any hbound
  obtain ⟨found, hfound, hmem⟩ := Pool.exists_ok_of_any hfound
  exact ⟨org, bound, found, horg, hbound, of_decide_eq_true heq, hfound, of_decide_eq_true hmem,
    Pool.supportType_eq_full_iff.2 hfour, mt Pool.supportType_eq_full_iff.1 hthree⟩

end Organization
end Muster
