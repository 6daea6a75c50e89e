import Muster.Proofs.Organization

/-!
Support of several resources at once, with constraints or without. What serves a resource are normal
pools, so what serves all of some resources are the maxima of the choices of one serving pool for
each, and these do not depend on the order of the resources. An empty set changes nothing in a
composition, but a resource that nothing serves leaves nothing that serves all.

Main statements: `supportAll_eq_empty_iff`, `mem_supportAll_iff_isMaximum`, `supportAll_perm`.
-/

namespace Muster.Organization

variable {org org₀ : Organization} {m : FunctionalityMapping} {fleet p q : Pool} {r : Resource}
  {rs rs' : List Resource} {pools served : PoolSet}

/-- Nothing serves all of some resources just if there are none or one that nothing serves. -/
theorem supportAll_eq_empty_iff (hm : org.mapping = .ok m) :
    org.supportAll rs = .ok .empty ↔ rs = [] ∨ ∃ r ∈ rs, org.support r = .ok .empty := by
  obtain ⟨pools, hpools, -⟩ := supportAll_spec hm rs
  have hsome := exists_mem_supportAll_iff hm (P := fun _ => True) (by simp) hpools
  simp only [and_true] at hsome
  rw [hpools, Except.ok.injEq, OrderedSet.eq_empty_iff, ← not_exists, hsome, not_and_or, not_not]
  refine or_congr_right ?_
  push Not
  refine exists_congr fun r => and_congr_right fun _ => ?_
  obtain ⟨served, hserved⟩ := exists_support hm r
  simp only [hserved, Except.ok.injEq, forall_eq', OrderedSet.eq_empty_iff]

section Prepared

variable (h : org₀.prepare fleet = .ok org)
include h

theorem isNormal_of_mem_support (hserved : org.support r = .ok served) (hp : p ∈ served) :
    p.IsNormal := by
  obtain ⟨m, hm, hmapping⟩ := mapping_of_prepare h
  cases hr : r.hasConstraints with
  | false =>
    obtain rfl := Except.ok.inj ((support_plain hm hr).symm.trans hserved)
    obtain ⟨-, hnormal, -⟩ := Pool.within_of_mem_poolsOf hmapping hp
    exact hnormal
  | true =>
    simp only [support, hm, bind, Except.bind, pure, Except.pure, hr, Bool.not_true,
      Bool.false_eq_true, if_false] at hserved
    obtain rfl := Except.ok.inj hserved
    obtain ⟨s, -, hbounded, -⟩ := Pool.mem_boundAll_iff.1 hp
    obtain rfl := Pool.eq_min_of_bounded hbounded
    exact Pool.isNormal_zipWith _ s org.pool

/-- What serves all of some resources are the maxima of the choices of one serving pool for each. -/
theorem mem_supportAll_iff_isMaximum (hpools : org.supportAll rs = .ok pools) :
    q ∈ pools ↔ ∃ ps, org.IsChoice rs ps ∧ Pool.IsMaximum ps q := by
  obtain ⟨m, hm, -⟩ := mapping_of_prepare h
  obtain ⟨pools', hpools', hmem⟩ := supportAll_spec hm rs
  obtain rfl := Except.ok.inj (hpools.symm.trans hpools')
  have hmaximum : ∀ {p ps}, org.IsChoice rs (p :: ps) →
      Pool.IsMaximum (p :: ps) (ps.foldl Pool.max p) := by
    intro p ps hchoice
    refine Pool.isMaximum_foldl_max ps (hchoice.forall_mem ?_ p List.mem_cons_self)
    exact fun r _ served hserved s hs => isNormal_of_mem_support h hserved hs
  rw [hmem]
  constructor
  · rintro ⟨p, ps, hchoice, rfl⟩
    exact ⟨p :: ps, hchoice, hmaximum hchoice⟩
  · rintro ⟨ps, hchoice, hq⟩
    cases ps with
    | nil =>
      obtain ⟨p, hp, -⟩ := hq.attained Vocabulary.actor
      exact absurd hp List.not_mem_nil
    | cons p ps => exact ⟨p, ps, hchoice, (hmaximum hchoice).unique hq⟩

/-- The order of resources does not matter for what serves all of them. That is the set of the maxima
of one serving pool for each; it is empty if there are no resources or if nothing serves one of them.
Sets are composed by maxima in any order, too, and the empty set changes nothing. -/
theorem supportAll_perm (hperm : rs.Perm rs') :
    (∃ pools, org.supportAll rs = .ok pools ∧ org.supportAll rs' = .ok pools ∧
      (∀ q, q ∈ pools ↔ ∃ ps, org.IsChoice rs ps ∧ Pool.IsMaximum ps q) ∧
      (pools = .empty ↔ rs = [] ∨ ∃ r ∈ rs, org.support r = .ok .empty)) ∧
    ∀ ps qs ss : PoolSet,
      Pool.maxCompositions ps qs = Pool.maxCompositions qs ps ∧
      Pool.maxCompositions (Pool.maxCompositions ps qs) ss =
        Pool.maxCompositions ps (Pool.maxCompositions qs ss) ∧
      Pool.maxCompositions .empty ps = ps ∧ Pool.maxCompositions ps .empty = ps := by
  obtain ⟨m, hm, -⟩ := mapping_of_prepare h
  obtain ⟨pools, hpools, -⟩ := supportAll_spec hm rs
  obtain ⟨pools', hpools', -⟩ := supportAll_spec hm rs'
  have hsame : pools = pools' := by
    have hsub : ∀ {rs rs' : List Resource} {pools pools' : PoolSet},
        org.supportAll rs = .ok pools → org.supportAll rs' = .ok pools' → rs.Perm rs' →
        ∀ q ∈ pools, q ∈ pools' := by
      intro rs rs' pools pools' hpools hpools' hperm q hq
      -- the choice for the one order, put into the other, has the same maximum
      obtain ⟨ps, hchoice, hmaximum⟩ := (mem_supportAll_iff_isMaximum h hpools).1 hq
      obtain ⟨ps', hchoice', hperm'⟩ := hchoice.of_perm hperm.symm
      exact (mem_supportAll_iff_isMaximum h hpools').2
        ⟨ps', hchoice', hmaximum.of_perm hperm'.symm⟩
    exact OrderedSet.ext_mem fun q =>
      ⟨hsub hpools hpools' hperm q, hsub hpools' hpools hperm.symm q⟩
  refine ⟨⟨pools, hpools, hsame ▸ hpools', fun q => mem_supportAll_iff_isMaximum h hpools, ?_⟩,
    fun ps qs ss => ⟨Pool.maxCompositions_comm ps qs, Pool.maxCompositions_assoc ps qs ss,
      Pool.maxCompositions_of_isEmpty rfl, Pool.maxCompositions_of_isEmpty_right rfl⟩⟩
  rw [← supportAll_eq_empty_iff hm, hpools, Except.ok.injEq]

end Prepared

/-- With bounds two rovers are noted for digging and one for waving. In either order, two do both. -/
theorem supportAll_perm_diggers : ∃ org pools, (diggers true).prepare (Pool.rovers 2) = .ok org ∧
    org.supportAll digAndWave = .ok pools ∧ org.supportAll digAndWave.reverse = .ok pools ∧
    Pool.rovers 2 ∈ pools := by
  obtain ⟨org, horg, htest⟩ : ∃ org, (diggers true).prepare (Pool.rovers 2) = .ok org ∧
      ((org.support ⟨⟨"Dig"⟩, []⟩).toOption.any (fun served => decide (Pool.rovers 2 ∈ served)) &&
        (org.support ⟨⟨"Wave"⟩, []⟩).toOption.any fun served =>
          decide (Pool.rovers 1 ∈ served)) = true := Pool.exists_ok_of_any (by decide +kernel)
  rw [Bool.and_eq_true] at htest
  obtain ⟨dig, hdig, htwo⟩ := Pool.exists_ok_of_any htest.1
  obtain ⟨wave, hwave, hone⟩ := Pool.exists_ok_of_any htest.2
  have hchoice : org.IsChoice digAndWave [Pool.rovers 2, Pool.rovers 1] :=
    .cons ⟨dig, hdig, of_decide_eq_true htwo⟩ (.cons ⟨wave, hwave, of_decide_eq_true hone⟩ .nil)
  have hmaximum : Pool.IsMaximum [Pool.rovers 2, Pool.rovers 1] (Pool.rovers 2) := by
    have hmax : [Pool.rovers 1].foldl Pool.max (Pool.rovers 2) = Pool.rovers 2 := by
      decide +kernel
    have hnormal : (Pool.rovers 2).IsNormal := Pool.isNormal_ofPairs_singleton (by decide)
    exact hmax ▸ Pool.isMaximum_foldl_max [Pool.rovers 1] hnormal
  obtain ⟨pools, hpools, hpools', hmem, -⟩ :=
    (supportAll_perm horg digAndWave.reverse_perm.symm).1
  exact ⟨org, pools, horg, hpools, hpools', (hmem _).2 ⟨_, hchoice, hmaximum⟩⟩

end Muster.Organization
