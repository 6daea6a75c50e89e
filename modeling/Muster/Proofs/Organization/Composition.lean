import Muster.Organization
import Muster.Proofs.Pool.Order

/-!
How support is composed. Sets of pools are composed by the maxima of their pairs; that is commutative
and associative, and the empty set leaves the other set as it is. What serves all of some resources
is composed resource by resource, and stops at one that nothing serves. In the end there is one pool
for each choice of a serving pool for each resource, which is the maximum of the choice.

Main statements: `isMaximum_foldl_max`, `maxCompositions_comm`, `maxCompositions_assoc`,
`supportAll_spec`.
-/

namespace Muster

namespace Pool

variable {p q r : Pool} {ps qs : List Pool}

/-! ### Maxima of several pools -/

theorem max_comm (p q : Pool) : p.max q = q.max p := by
  refine ext_count (isNormal_zipWith _ p q) (isNormal_zipWith _ q p) fun m => UInt32.toNat_inj.1 ?_
  rw [toNat_count_max, toNat_count_max, Nat.max_comm]

theorem max_assoc (p q r : Pool) : (p.max q).max r = p.max (q.max r) := by
  refine ext_count (isNormal_zipWith _ _ r) (isNormal_zipWith _ p _) fun m => UInt32.toNat_inj.1 ?_
  simp only [toNat_count_max, Nat.max_assoc]

theorem max_self (hq : q.IsNormal) : q.max q = q :=
  isSubset_antisymm (isNormal_zipWith _ q q) hq
    (isSubset_max_iff.2 ⟨isSubset_refl q, isSubset_refl q⟩) (isSubset_max_left q q)

theorem count_max_eq_or (p q : Pool) (m : Model) :
    (p.max q).count m = p.count m ∨ (p.max q).count m = q.count m := by
  rw [count_max]
  split
  · exact .inr rfl
  · exact .inl rfl

/-- What is true of a maximum just if it is true of both pools is so for several pools. -/
theorem foldl_max_iff {P : Pool → Prop} (hP : ∀ s t, P (s.max t) ↔ P s ∧ P t) :
    ∀ {ps : List Pool} {p : Pool}, P (ps.foldl max p) ↔ ∀ s ∈ p :: ps, P s
  | [], p => by simp
  | q :: ps, p => by
    rw [List.foldl_cons, foldl_max_iff hP]
    simp only [List.forall_mem_cons, hP, and_assoc]

/-- The normal pool that holds some pools and has no more of any model than one of them. -/
structure IsMaximum (ps : List Pool) (q : Pool) : Prop where
  isNormal : q.IsNormal
  isSubset : ∀ p ∈ ps, p.isSubset q = true
  attained : ∀ m, ∃ p ∈ ps, q.count m = p.count m

theorem IsMaximum.unique (hq : IsMaximum ps q) (hr : IsMaximum ps r) : q = r := by
  have hle : ∀ {q r}, IsMaximum ps q → IsMaximum ps r → q.isSubset r = true := by
    intro q r hq hr
    refine isSubset_iff.2 fun m => ?_
    obtain ⟨p, hp, hm⟩ := hq.attained m
    exact hm ▸ isSubset_iff.1 (hr.isSubset p hp) m
  exact isSubset_antisymm hq.isNormal hr.isNormal (hle hq hr) (hle hr hq)

theorem IsMaximum.of_perm (h : IsMaximum ps q) (hperm : ps.Perm qs) : IsMaximum qs q where
  isNormal := h.isNormal
  isSubset p hp := h.isSubset p (hperm.mem_iff.2 hp)
  attained m := by
    obtain ⟨p, hp, hm⟩ := h.attained m
    exact ⟨p, hperm.mem_iff.1 hp, hm⟩

/-- Taking in one pool after the other ends with the maximum of all. -/
theorem isMaximum_foldl_max : ∀ (ps : List Pool) {p : Pool}, p.IsNormal →
    IsMaximum (p :: ps) (ps.foldl max p)
  | [], p, hp => ⟨hp, by simp [isSubset_refl], fun m => ⟨p, List.mem_cons_self, rfl⟩⟩
  | q :: ps, p, _ => by
    have ih : IsMaximum (p.max q :: ps) (ps.foldl max (p.max q)) :=
      isMaximum_foldl_max ps (isNormal_zipWith _ p q)
    refine ⟨ih.isNormal, (foldl_max_iff fun _ _ => isSubset_max_iff).1 (isSubset_refl _),
      fun m => ?_⟩
    -- what is attained by the first two together is attained by one of them
    obtain ⟨s, hs, hm⟩ := ih.attained m
    rw [List.foldl_cons, hm]
    rcases List.mem_cons.1 hs with rfl | hs
    · rcases count_max_eq_or p q m with h | h
      · exact ⟨p, List.mem_cons_self, h⟩
      · exact ⟨q, List.mem_cons_of_mem _ List.mem_cons_self, h⟩
    · exact ⟨s, List.mem_cons_of_mem _ (List.mem_cons_of_mem _ hs), rfl⟩

end Pool

/-! ### Compositions of sets -/

namespace Pool

variable {p : Pool} {ps qs : PoolSet}

theorem exists_mem_of_isEmpty (h : ps.isEmpty = false) : ∃ p, p ∈ ps := by
  obtain ⟨p, hp⟩ := List.exists_mem_of_ne_nil _ (List.isEmpty_eq_false_iff.1 h)
  exact ⟨p, hp⟩

theorem isEmpty_eq_false_of_mem (h : p ∈ ps) : ps.isEmpty = false :=
  List.isEmpty_eq_false_iff.2 (List.ne_nil_of_mem h)

theorem mem_maxCompositions (hps : ps.isEmpty = false) (hqs : qs.isEmpty = false) :
    p ∈ maxCompositions ps qs ↔ ∃ s ∈ ps, ∃ t ∈ qs, s.max t = p := by
  rw [maxCompositions, hps, hqs, if_neg Bool.false_ne_true, if_neg Bool.false_ne_true,
    OrderedSet.mem_ofList]
  simp only [List.mem_flatMap, List.mem_map, OrderedSet.mem_def]

theorem maxCompositions_of_isEmpty (hps : ps.isEmpty = true) : maxCompositions ps qs = qs := by
  rw [maxCompositions, if_pos hps]

theorem maxCompositions_of_isEmpty_right (hqs : qs.isEmpty = true) :
    maxCompositions ps qs = ps := by
  rw [maxCompositions, if_pos hqs]
  split
  · rename_i hps
    rw [OrderedSet.eq_empty_iff.2 (OrderedSet.isEmpty_iff.1 hps),
      OrderedSet.eq_empty_iff.2 (OrderedSet.isEmpty_iff.1 hqs)]
  · rfl

theorem isEmpty_maxCompositions (hqs : qs.isEmpty = false) :
    (maxCompositions ps qs).isEmpty = false := by
  cases hps : ps.isEmpty with
  | true => rwa [maxCompositions_of_isEmpty hps]
  | false =>
    obtain ⟨s, hs⟩ := exists_mem_of_isEmpty hps
    obtain ⟨t, ht⟩ := exists_mem_of_isEmpty hqs
    exact isEmpty_eq_false_of_mem ((mem_maxCompositions hps hqs).2 ⟨s, hs, t, ht, rfl⟩)

theorem maxCompositions_comm (ps qs : PoolSet) : maxCompositions ps qs = maxCompositions qs ps := by
  cases hps : ps.isEmpty with
  | true => rw [maxCompositions_of_isEmpty hps, maxCompositions_of_isEmpty_right hps]
  | false =>
    cases hqs : qs.isEmpty with
    | true => rw [maxCompositions_of_isEmpty_right hqs, maxCompositions_of_isEmpty hqs]
    | false =>
      refine OrderedSet.ext_mem fun p => ?_
      rw [mem_maxCompositions hps hqs, mem_maxCompositions hqs hps]
      constructor <;> rintro ⟨s, hs, t, ht, rfl⟩ <;> exact ⟨t, ht, s, hs, max_comm t s⟩

theorem maxCompositions_assoc (ps qs ss : PoolSet) :
    maxCompositions (maxCompositions ps qs) ss = maxCompositions ps (maxCompositions qs ss) := by
  cases hps : ps.isEmpty with
  | true => rw [maxCompositions_of_isEmpty hps, maxCompositions_of_isEmpty hps]
  | false =>
    cases hqs : qs.isEmpty with
    | true => rw [maxCompositions_of_isEmpty_right hqs, maxCompositions_of_isEmpty hqs]
    | false =>
      cases hss : ss.isEmpty with
      | true => rw [maxCompositions_of_isEmpty_right hss, maxCompositions_of_isEmpty_right hss]
      | false =>
        refine OrderedSet.ext_mem fun p => ?_
        rw [mem_maxCompositions (isEmpty_maxCompositions hqs) hss,
          mem_maxCompositions hps (isEmpty_maxCompositions hss)]
        constructor
        · rintro ⟨x, hx, u, hu, rfl⟩
          obtain ⟨s, hs, t, ht, rfl⟩ := (mem_maxCompositions hps hqs).1 hx
          exact ⟨s, hs, t.max u, (mem_maxCompositions hqs hss).2 ⟨t, ht, u, hu, rfl⟩,
            (max_assoc s t u).symm⟩
        · rintro ⟨s, hs, x, hx, rfl⟩
          obtain ⟨t, ht, u, hu, rfl⟩ := (mem_maxCompositions hqs hss).1 hx
          exact ⟨s.max t, (mem_maxCompositions hps hqs).2 ⟨s, hs, t, ht, rfl⟩, u, hu,
            max_assoc s t u⟩

end Pool

/-! ### Choices -/

namespace Organization

variable {org : Organization} {m : FunctionalityMapping} {rs rs' : List Resource}
  {ps : List Pool} {pools : PoolSet}

/-- A choice of one pool that serves for each resource. -/
def IsChoice (org : Organization) : List Resource → List Pool → Prop :=
  List.Forall₂ fun r p => ∃ pools, org.support r = .ok pools ∧ p ∈ pools

theorem IsChoice.of_perm (h : org.IsChoice rs ps) (hperm : rs'.Perm rs) :
    ∃ ps', org.IsChoice rs' ps' ∧ ps'.Perm ps := List.perm_comp_forall₂ hperm h

theorem IsChoice.forall_mem {P : Pool → Prop} (h : org.IsChoice rs ps)
    (hP : ∀ r ∈ rs, ∀ pools, org.support r = .ok pools → ∀ p ∈ pools, P p) : ∀ p ∈ ps, P p := by
  induction h with
  | nil => simp
  | cons hserves _ ih =>
    obtain ⟨pools, hpools, hp⟩ := hserves
    obtain ⟨hPr, hP⟩ := List.forall_mem_cons.1 hP
    exact List.forall_mem_cons.2 ⟨hPr pools hpools _ hp, ih hP⟩

/-- There is a choice of pools with a property if each resource is served by such a pool. -/
theorem exists_isChoice_iff {P : Pool → Prop} : ∀ {rs : List Resource},
    (∃ ps, org.IsChoice rs ps ∧ ∀ p ∈ ps, P p) ↔
      ∀ r ∈ rs, ∃ pools, org.support r = .ok pools ∧ ∃ p ∈ pools, P p
  | [] => by simp [IsChoice]
  | r :: rs => by
    rw [List.forall_mem_cons, ← exists_isChoice_iff]
    constructor
    · rintro ⟨_, hchoice, hP⟩
      obtain ⟨p, ps, ⟨pools, hpools, hp⟩, hrest, rfl⟩ := List.forall₂_cons_left_iff.1 hchoice
      obtain ⟨hPp, hP⟩ := List.forall_mem_cons.1 hP
      exact ⟨⟨pools, hpools, p, hp, hPp⟩, ps, hrest, hP⟩
    · rintro ⟨⟨pools, hpools, p, hp, hPp⟩, ps, hchoice, hP⟩
      exact ⟨p :: ps, .cons ⟨pools, hpools, hp⟩ hchoice, List.forall_mem_cons.2 ⟨hPp, hP⟩⟩

section Mapping

variable (hm : org.mapping = .ok m)
include hm

theorem exists_support (r : Resource) : ∃ pools, org.support r = .ok pools := by
  rw [support, hm]
  cases r.hasConstraints <;> exact ⟨_, rfl⟩

/-- If something is composed so far, each of its pools takes in one pool of each further resource. -/
theorem composeSupport_spec : ∀ (rs : List Resource) (composed : PoolSet),
    composed.isEmpty = false → ∃ pools, org.composeSupport composed rs = .ok pools ∧
      ∀ q, q ∈ pools ↔ ∃ p ∈ composed, ∃ ps, org.IsChoice rs ps ∧ ps.foldl Pool.max p = q
  | [], composed, _ => ⟨composed, rfl, fun q => by simp [IsChoice]⟩
  | r :: rest, composed, hcomposed => by
    obtain ⟨served, hserved⟩ := exists_support hm r
    simp only [composeSupport, hserved, bind, Except.bind, pure, Except.pure]
    cases hempty : served.isEmpty with
    | true =>
      -- the rest is not looked at, and there is no choice either
      refine ⟨.empty, rfl, fun q => iff_of_false List.not_mem_nil ?_⟩
      rintro ⟨p, -, ps, hchoice, -⟩
      obtain ⟨s, -, ⟨pools, hpools, hs⟩, -⟩ := List.forall₂_cons_left_iff.1 hchoice
      obtain rfl := Except.ok.inj (hserved.symm.trans hpools)
      exact OrderedSet.isEmpty_iff.1 hempty s hs
    | false =>
      have hsome : (Pool.maxCompositions composed served).isEmpty = false :=
        Pool.isEmpty_maxCompositions hempty
      obtain ⟨pools, hpools, hmem⟩ := composeSupport_spec rest _ hsome
      refine ⟨pools, hpools, fun q => ?_⟩
      rw [hmem]
      constructor
      · rintro ⟨x, hx, ps, hchoice, rfl⟩
        obtain ⟨p, hp, s, hs, rfl⟩ := (Pool.mem_maxCompositions hcomposed hempty).1 hx
        exact ⟨p, hp, s :: ps, .cons ⟨served, hserved, hs⟩ hchoice, rfl⟩
      · rintro ⟨p, hp, _, hchoice, rfl⟩
        obtain ⟨s, ps, ⟨_, hpools', hs⟩, hrest, rfl⟩ := List.forall₂_cons_left_iff.1 hchoice
        obtain rfl := Except.ok.inj (hserved.symm.trans hpools')
        exact ⟨p.max s, (Pool.mem_maxCompositions hcomposed hempty).2 ⟨p, hp, s, hs, rfl⟩, ps,
          hrest, rfl⟩

/-- What serves all of some resources are the maxima of the choices of one pool for each. -/
theorem supportAll_spec (rs : List Resource) : ∃ pools, org.supportAll rs = .ok pools ∧
    ∀ q, q ∈ pools ↔ ∃ p ps, org.IsChoice rs (p :: ps) ∧ ps.foldl Pool.max p = q := by
  cases rs with
  | nil => exact ⟨.empty, rfl, fun q => by simp [IsChoice, OrderedSet.not_mem_empty]⟩
  | cons r rest =>
    obtain ⟨served, hserved⟩ := exists_support hm r
    have hchoice_iff : ∀ p ps, org.IsChoice (r :: rest) (p :: ps) ↔
        p ∈ served ∧ org.IsChoice rest ps := by
      intro p ps
      rw [IsChoice, List.forall₂_cons]
      refine and_congr_left fun _ => ⟨?_, fun hp => ⟨served, hserved, hp⟩⟩
      rintro ⟨pools, hpools, hp⟩
      exact Except.ok.inj (hserved.symm.trans hpools) ▸ hp
    simp only [supportAll, composeSupport, hserved, bind, Except.bind, pure, Except.pure,
      hchoice_iff, Pool.maxCompositions_of_isEmpty (rfl : PoolSet.isEmpty .empty = true)]
    cases hempty : served.isEmpty with
    | true =>
      refine ⟨.empty, rfl, fun q => iff_of_false List.not_mem_nil ?_⟩
      rintro ⟨p, -, ⟨hp, -⟩, -⟩
      exact OrderedSet.isEmpty_iff.1 hempty p hp
    | false =>
      obtain ⟨pools, hpools, hmem⟩ := composeSupport_spec hm rest served hempty
      refine ⟨pools, hpools, fun q => (hmem q).trans ?_⟩
      simp only [← exists_and_left, and_assoc]

/-- Some pool with a property that maxima share with both pools serves all of some resources just if
such a pool serves each of them. -/
theorem exists_mem_supportAll_iff {P : Pool → Prop} (hP : ∀ s t : Pool, P (s.max t) ↔ P s ∧ P t)
    (hpools : org.supportAll rs = .ok pools) : (∃ q ∈ pools, P q) ↔
      rs ≠ [] ∧ ∀ r ∈ rs, ∃ served, org.support r = .ok served ∧ ∃ p ∈ served, P p := by
  obtain ⟨pools', hpools', hmem⟩ := supportAll_spec hm rs
  obtain rfl := Except.ok.inj (hpools.symm.trans hpools')
  rw [← exists_isChoice_iff]
  constructor
  · rintro ⟨q, hq, hPq⟩
    obtain ⟨p, ps, hchoice, rfl⟩ := (hmem q).1 hq
    refine ⟨?_, p :: ps, hchoice, (Pool.foldl_max_iff hP).1 hPq⟩
    rintro rfl
    exact absurd (List.forall₂_nil_left_iff.1 hchoice) (by simp)
  · rintro ⟨hne, ps, hchoice, hall⟩
    cases ps with
    | nil => exact absurd (List.forall₂_nil_right_iff.1 hchoice) hne
    | cons p ps => exact ⟨_, (hmem _).2 ⟨p, ps, hchoice, rfl⟩, (Pool.foldl_max_iff hP).2 hall⟩

end Mapping

end Organization
end Muster
