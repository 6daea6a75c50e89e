import Muster.Proofs.Functionality.Search

/-!
The pools that the bounded search finds are least. The test for minimal pools leaves out entries
that give no support by themselves. Such an entry offers nothing of what is needed, so the
saturation bound of its model is zero and no pool that is tried holds it.

Main statements: `supportOf_entry_of_bound`, `IsFoundMinimal.isLeast`, `least_of_mem_poolsOf`.
-/

namespace Muster.Pool

open SupportVector

variable {o : Ontology} {c : MappingConfig} {clock : Clock} {pool bound own p q : Pool}
  {fs : List Model} {m : FunctionalityMapping} {f : Model}

theorem serves_of_needsNothing (h : NeedsNothing o fs) (p : Pool) : Serves o fs p := by
  intro l hl
  rw [amount_need_eq_zero_iff.2 (h l hl)]
  exact Nat.zero_le _

/-- Each entry of a pool within the saturation bound gives some support. -/
theorem supportOf_entry_of_bound (ho : o.IsTransitive) (hpool : pool.isEmpty = false)
    (hown : (⟨f, []⟩ : Resource).saturationBound o pool = .ok own) (hp : p.IsNormal)
    (hle : p.isSubset pool = true) (hle' : p.isSubset own = true) {e : Model × UInt32}
    (he : e ∈ p.entries) : supportOf o [f] (.ofPairs [e]) ≠ .noSupport := by
  intro hnone
  obtain ⟨hne, hcount⟩ := hp.mem_entries_iff.1 he
  have hneed : ¬ NeedsNothing o [f] := by
    intro hnothing
    have hfull := supportOf_eq_full_iff.2 (serves_of_needsNothing hnothing (.ofPairs [e]))
    exact absurd (hnone.symm.trans hfull) (by decide)
  have hcount' : (ofPairs [e]).count e.1 ≠ 0 := by rwa [count_ofPairs_singleton hne, if_pos rfl]
  have hzero : saturationOf o f e.1 = .ok 0 :=
    saturationOf_eq_zero ho hneed fun l hl hl' =>
      unitsFor_of_noSupport (supportType_eq_supportOf.trans (congrArg _ hnone)) hl hl' hcount'
  -- the model is in the pool, so its count in the bound is its saturation
  have hmodel : e.1 ∈ pool.models := mem_models_of_count_ne_zero fun h =>
    hne (hcount ▸ count_eq_zero_of_isSubset hle h)
  have hnull : own.count e.1 = 0 :=
    Except.ok.inj ((saturationOf_of_mem hpool hown hmodel).symm.trans hzero)
  exact hne (hcount ▸ count_eq_zero_of_isSubset hle' hnull)

section Found

variable {limits : Pool}

/-- What is tried is a pool within the bounds. -/
theorem IsFoundMinimal.bounds (h : IsFoundMinimal o c clock pool bound p f)
    (hown : (⟨f, []⟩ : Resource).saturationBound o pool = .ok own) :
    p.IsNormal ∧ p.isEmpty = false ∧ p.isSubset bound = true ∧ p.isSubset own = true := by
  obtain ⟨own', hown', hp⟩ := h.tried
  obtain rfl := Except.ok.inj (hown.symm.trans hown')
  obtain ⟨hnormal, hle, hsome⟩ := MappingConfig.of_mem_combinations hp
  exact ⟨hnormal, hsome, isSubset_min_iff.1 hle⟩

theorem IsFoundMinimal.isLeast (h : IsFoundMinimal o c clock pool (pool.min limits) p f)
    (ho : o.IsTransitive) (hpool : pool.isEmpty = false) : IsLeast o [f] p := by
  obtain ⟨own, hown, -⟩ := saturationBound_plain hpool o f
  obtain ⟨hnormal, -, hle, hle'⟩ := h.bounds hown
  refine isLeast_of_isMinimal hnormal h.isMinimal fun e he => ?_
  exact supportOf_entry_of_bound ho hpool hown hnormal (isSubset_min_iff.1 hle).1 hle' he

end Found

theorem IsLeast.not_serves_oneLess (h : IsLeast o fs p) {a : Model} (hq : IsOneLess q p a) :
    ¬ Serves o fs q := by
  have hne : p.count a ≠ 0 := by
    intro hzero
    have := hq.count_self
    rw [hzero, UInt32.toNat_zero] at this
    omega
  rw [serves_congr (hq.count_eq (isOneLess_withoutOne hne))]
  exact h.not_serves a hne

/-- No pool that serves lies properly within a least one. -/
theorem IsLeast.eq_of_isSubset (h : IsLeast o fs p) (hp : p.IsNormal) (hq : q.IsNormal)
    (hserves : Serves o fs q) (hle : q.isSubset p = true) : q = p := by
  by_contra hne
  obtain ⟨a, ha, hle'⟩ := exists_isSubset_withoutOne hq hp hle hne
  exact h.not_serves a ha (hserves.mono hle')

/-- The mapping that is computed with saturation bounds. -/
theorem minimalMapping_of_functionalityMapping
    (h : functionalityMapping o c clock pool fs true = .ok m) :
    pool.isEmpty = false ∧ minimalMapping o c clock pool fs = .ok m := by
  rw [functionalityMapping] at h
  split at h
  · exact absurd h (by simp)
  · rename_i hpool
    split at h
    · exact absurd h (by simp)
    · exact ⟨Bool.not_eq_true _ ▸ hpool, h⟩

/-- Every pool that is found with saturation bounds is within the pool and the bound, serves its
functionality, no longer does with one instance less, and can be wired if that is asked for. -/
theorem least_of_mem_poolsOf (d : CatalogDraft)
    (h : functionalityMapping d.build.ontology c clock pool fs true = .ok m)
    (hp : p ∈ m.poolsOf f) :
    p.IsNormal ∧ p.isEmpty = false ∧ p.isSubset pool = true ∧ p.isSubset m.bound = true ∧
      supportType d.build.ontology [f] p = .ok .fullSupport ∧
      (∀ q a, IsOneLess q p a → supportType d.build.ontology [f] q ≠ .ok .fullSupport) ∧
      (∀ q ∈ m.poolsOf f, q.isSubset p = true → q = p) ∧
      (c.checkWiring = true → p.isWirable d.build.ontology c.wiring clock = true) := by
  obtain ⟨hpool, hm⟩ := minimalMapping_of_functionalityMapping h
  obtain ⟨limits, hlimits, -⟩ := saturationBound_all hpool d.build.ontology fs
  obtain ⟨own, hown, -⟩ := saturationBound_plain hpool d.build.ontology f
  have hmaps : Maps _ _ c (minimalMapping d.build.ontology c clock pool fs) :=
    minimalMapping_spec hpool hlimits
  have hfound := fun q hq => ((hmaps.mem_iff m hm q f).1 hq).2
  have hleast := (hfound p hp).isLeast d.isTransitive hpool
  obtain ⟨hnormal, hsome, hle, -⟩ := (hfound p hp).bounds hown
  refine ⟨hnormal, hsome, (isSubset_min_iff.1 hle).1, ?_, ?_, ?_, ?_, (hfound p hp).isWirable⟩
  · rwa [hmaps.bound_eq m hm]
  · exact supportType_eq_full_iff.2 hleast.serves
  · intro q a hq
    exact mt supportType_eq_full_iff.1 (hleast.not_serves_oneLess hq)
  · intro q hq
    have hserves := ((hfound q hq).isLeast d.isTransitive hpool).serves
    exact hleast.eq_of_isSubset hnormal ((hfound q hq).bounds hown).1 hserves

/-- Digging takes two arms, and rovers, which have an arm each, link up with each other. -/
def roversWithArms : CatalogDraft :=
  ((((({} : CatalogDraft).has ⟨"Dig"⟩ ⟨"Arm"⟩ 2 2).has ⟨"Rover"⟩ ⟨"Arm"⟩ 0 1).has
    ⟨"Rover"⟩ ⟨"Link"⟩ 0 1).compatible ⟨"Link"⟩ ⟨"Link"⟩)

/-- Pools must be linked, in order. -/
def linkedInOrder : MappingConfig :=
  { wiring := { interfaceBase := ⟨"Link"⟩, branching := .lexicographic } }

/-- Some rovers. -/
def rovers (n : UInt32) : Pool := .ofPairs [(⟨"Rover"⟩, n)]

/-- A clock that stands still. -/
def stopped : Clock := ⟨fun _ => ⟨0⟩⟩

theorem least_of_mem_poolsOf_twoRovers : ∃ m,
    functionalityMapping roversWithArms.build.ontology linkedInOrder stopped (rovers 3) [⟨"Dig"⟩]
      true = .ok m ∧ rovers 2 ∈ m.poolsOf ⟨"Dig"⟩ ∧
    (∀ q a, IsOneLess q (rovers 2) a →
      supportType roversWithArms.build.ontology [⟨"Dig"⟩] q ≠ .ok .fullSupport) ∧
    (rovers 2).isWirable roversWithArms.build.ontology linkedInOrder.wiring stopped = true := by
  obtain ⟨m, hm, hmem⟩ : ∃ m, functionalityMapping roversWithArms.build.ontology linkedInOrder
      stopped (rovers 3) [⟨"Dig"⟩] true = .ok m ∧
      decide (rovers 2 ∈ m.poolsOf ⟨"Dig"⟩) = true := exists_ok_of_any (by decide +kernel)
  have hmem' := of_decide_eq_true hmem
  obtain ⟨-, -, -, -, -, hless, -, hwirable⟩ := least_of_mem_poolsOf roversWithArms hm hmem'
  exact ⟨m, hm, hmem', hless, hwirable rfl⟩

end Muster.Pool
